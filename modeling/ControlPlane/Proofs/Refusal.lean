import ControlPlane.Proofs.Delivery

/-!
# Refused calls leave no trace

A call can be refused at any of its checks: the kind is unknown, the object is not of its kind, the
key or the scope does not suit it, the store is shut down, the object is not there or has changed,
the patch does not apply, a selector names a field that is not declared, the history no longer
reaches back. None of these comes after the first thing the call does. So a refused call leaves
every table, the sequence of versions and the counters as they were, and a run goes on as though the
call had never been made.

* `Store.act_isRefusal`: the step. An action that is refused leaves the store as it was.
* `Store.run_accepted`, `Store.outcomes_accepted`: the run. Leaving the refused calls out of it
  changes neither the store it ends in nor what anyone else is told.
* `Store.refused_untraced`: both, for every store that can be reached.
-/

namespace ControlPlane

namespace Store

/-- The outcome is the refusal of a call. -/
def Outcome.isRefusal : Outcome → Bool
  | .answer (.error _) => true
  | _ => false

/-- The actions that are left if the calls that are refused are left out. -/
def accepted (s : Store) : List Action → List Action
  | [] => []
  | a :: actions =>
    if (s.act a).1.isRefusal then (s.act a).2.accepted actions
    else a :: (s.act a).2.accepted actions

variable {s : Store} {log : List Commit}

theorem act_isRefusal (hs : s.Follows log) {a : Action} (h : (s.act a).1.isRefusal = true) :
    (s.act a).2 = s := by
  cases a with
  | call kind scope m w =>
    cases hresult : (s.act (.call kind scope m w)).1 with
    | answer result =>
      cases result with
      | error e => exact act_refused hs hresult
      | ok reply =>
        rw [hresult] at h
        cases h
    | item i =>
      rw [hresult] at h
      cases h
    | silent =>
      rw [hresult] at h
      cases h
  | poll now w => cases h
  | stopWatch w => cases h
  | dropWatch w => cases h
  | shutdown => cases h

theorem run_accepted (hs : s.Follows log) (actions : List Action) :
    s.run (s.accepted actions) = s.run actions := by
  induction actions generalizing s log with
  | nil => rfl
  | cons a actions ih =>
    have hrest := ih (hs.act a)
    rw [run_cons, accepted]
    by_cases h : (s.act a).1.isRefusal = true
    · rw [if_pos h, ← hrest, act_isRefusal hs h]
    · rw [if_neg h, run_cons, hrest]

theorem outcomes_accepted (hs : s.Follows log) (actions : List Action) :
    s.outcomes (s.accepted actions) = (s.outcomes actions).filter (!·.isRefusal) := by
  induction actions generalizing s log with
  | nil => rfl
  | cons a actions ih =>
    have hrest := ih (hs.act a)
    rw [outcomes, accepted]
    by_cases h : (s.act a).1.isRefusal = true
    · rw [if_pos h, List.filter_cons_of_neg (by simp [h]), ← hrest, act_isRefusal hs h]
    · rw [if_neg h, List.filter_cons_of_pos (by simpa using h), outcomes, hrest]

/-- **A call that is refused changes nothing**, through whatever scope and for whatever reason, be
it a request or the second half of a patch; and whatever comes after it comes as if it had not been
made. -/
theorem refused_untraced (catalog : Catalog) (limits : WatchLimits) (before : List Action)
    {s : Store} (hs : s = (empty catalog limits).run before) :
    (∀ kind scope m w e, (s.act (.call kind scope m w)).1 = .answer (.error e) →
      (s.act (.call kind scope m w)).2 = s) ∧
    ∀ actions, s.run (s.accepted actions) = s.run actions ∧
      s.outcomes (s.accepted actions) = (s.outcomes actions).filter (!·.isRefusal) := by
  have hfollows := follows_reached catalog limits before
  rw [← hs] at hfollows
  refine ⟨?_, ?_⟩
  · intro kind scope m w e h
    exact act_refused hfollows h
  · intro actions
    exact ⟨run_accepted hfollows actions, outcomes_accepted hfollows actions⟩

/-- A name that is taken, with a watch that would have seen the creation. -/
theorem refused_untraced_configs :
    ((configStore.run [createConfig "a", watchConfigs 0]).act (createConfig "a")).1 =
        .answer (.error (.alreadyExists "ConfigMap" "default/a")) ∧
      ((configStore.run [createConfig "a", watchConfigs 0]).act (createConfig "a")).2 =
        configStore.run [createConfig "a", watchConfigs 0] ∧
      (configStore.run [createConfig "a", watchConfigs 0]).run
          [createConfig "b"] =
        (configStore.run [createConfig "a", watchConfigs 0]).run
          [createConfig "a", createConfig "b"] := by
  have h := refused_untraced configCatalog ⟨2, 1000, 2⟩ [createConfig "a", watchConfigs 0] rfl
  exact ⟨rfl, h.1 _ _ _ _ _ rfl, (h.2 [createConfig "a", createConfig "b"]).1⟩

end Store

end ControlPlane
