import ControlPlane.Proofs.Cache

/-!
# What a history holds

The history of a kind holds the last changes of the kind, as many as it may, and its oldest version
is that of the last change it dropped. The versions of a kind have gaps, since all kinds share one
sequence, but a change was dropped exactly if its version is not above the oldest one. So a watch
is refused for what is gone exactly if it would miss a change, and it can resume from the oldest
version, and from the version of any list.

* `History.Retains.changes_eq`: the history holds the end of the log.
* `History.Retains.lt_oldest_iff`: what lies below the oldest version is what misses a change.
* `Store.bounded_run`: no action changes how much a history may hold.
* `Store.retention_exact`: what holds in every store that can be reached.
-/

namespace ControlPlane

/-- A commit as the history of its table holds it. -/
def Commit.entry (c : Commit) : Version × Change := (c.version, c.change)

/-! ## Histories -/

namespace History

variable {h : History} {entries : List (Version × Change)}

/-- **The history holds the end of the entries**, as many as it may. -/
theorem Retains.changes_eq (hr : h.Retains entries) :
    h.changes = entries.drop (entries.length - h.capacity) := by
  obtain ⟨dropped, rfl, -, hlen⟩ := hr
  have hdropped : (dropped ++ h.changes).length - h.capacity = dropped.length := by
    rw [List.length_append] at hlen ⊢
    omega
  rw [hdropped, List.drop_left]

theorem Retains.pairwise (hr : h.Retains entries)
    (hentries : entries.Pairwise fun a b => a.1 < b.1) :
    h.changes.Pairwise fun a b => a.1 < b.1 := by
  rw [hr.changes_eq]
  exact hentries.sublist (List.drop_sublist ..)

/-- **A version lies below the oldest one exactly if an entry after it is not held.** -/
theorem Retains.lt_oldest_iff (hr : h.Retains entries)
    (hentries : entries.Pairwise fun a b => a.1 < b.1) {v : Version} :
    v < h.oldest ↔ ∃ e ∈ entries, v < e.1 ∧ e ∉ h.changes := by
  obtain ⟨dropped, rfl, hold, -⟩ := hr
  obtain ⟨hdropped, -, hacross⟩ := List.pairwise_append.mp hentries
  rcases List.eq_nil_or_concat dropped with rfl | ⟨init, last, rfl⟩
  · -- Nothing was dropped, and no version lies below zero.
    have hzero : h.oldest = 0 := by simpa using hold
    constructor
    · intro hlt
      rw [hzero] at hlt
      exact absurd hlt (Nat.not_lt_zero v)
    · rintro ⟨e, he, -, hheld⟩
      exact absurd he hheld
  · rw [List.concat_eq_append] at hdropped hacross hold ⊢
    simp only [List.getLast?_concat, Option.map_some, Option.getD_some] at hold
    rw [hold]
    constructor
    · intro hlt
      refine ⟨last, by simp, hlt, fun hheld => ?_⟩
      exact Nat.lt_irrefl _ (hacross last (by simp) last hheld)
    · rintro ⟨e, he, hlt, hheld⟩
      have he' : e ∈ init ++ [last] := (List.mem_append.mp he).resolve_right hheld
      rcases List.mem_append.mp he' with he' | he'
      · have hle := (List.pairwise_append.mp hdropped).2.2 e he' last (by simp)
        exact Nat.lt_trans hlt hle
      · rwa [List.mem_singleton.mp he'] at hlt

end History

/-! ## How much a history may hold -/

theorem Focus.Commits.capacity_eq {i now : Nat} {verb : Verb} {f f' : Focus} {log : List Commit}
    (h : Focus.Commits i now verb f log f') :
    f'.table.history.capacity = f.table.history.capacity := by
  induction h with
  | nil => rfl
  | cons _ _ _ _ ih => exact ih

namespace Store

variable {s s' : Store} {log : List Commit} {i : Nat} {t : Table}

/-- Every history may hold as much as the limits say. -/
def Bounded (s : Store) : Prop :=
  ∀ (i : Nat) (t : Table), s.tables[i]? = some t → t.history.capacity = s.limits.history

theorem bounded_empty (catalog : Catalog) (limits : WatchLimits) :
    (empty catalog limits).Bounded := by
  intro i t ht
  rw [empty, List.getElem?_map] at ht
  obtain ⟨d, -, rfl⟩ := Option.map_eq_some_iff.mp ht
  rfl

theorem Moves.bounded (h : s.Moves log s') (hs : s.Bounded) : s'.Bounded := by
  cases h with
  | still => exact hs
  | @table i t _ f' ht hf =>
    have hcapacity : f'.table.history.capacity = t.history.capacity := by
      cases hf with
      | still hstill => exact congrArg History.capacity hstill.history_eq
      | commits hc => exact hc.capacity_eq
    intro j t' ht'
    rcases tables_absorb ht ht' with ⟨rfl, rfl⟩ | ⟨-, ht'⟩
    · rw [hcapacity]
      exact hs i t ht
    · exact hs j t' ht'

theorem Bounded.shutdown (hs : s.Bounded) : s.shutdown.Bounded := by
  intro i t ht
  rw [Store.shutdown, List.getElem?_map] at ht
  obtain ⟨t', ht', rfl⟩ := Option.map_eq_some_iff.mp ht
  exact hs i t' ht'

/-- **No action changes how much a history may hold.** -/
theorem bounded_run (hfollows : s.Follows log) (hs : s.Bounded) (actions : List Action) :
    (s.run actions).Bounded := by
  induction actions generalizing s log with
  | nil => exact hs
  | cons a actions ih =>
    refine ih (hfollows.act a) ?_
    rcases act_moves hfollows.filed a with rfl | h
    · exact hs.shutdown
    · exact h.bounded hs

/-! ## What a history holds of a run -/

theorem Follows.retains (hs : s.Follows log) (ht : s.tables[i]? = some t) :
    t.history.Retains ((ofTable i log).map Commit.entry) := (hs.tables i t ht).retains

theorem Follows.entries_pairwise (hs : s.Follows log) (i : Nat) :
    ((ofTable i log).map Commit.entry).Pairwise fun a b => a.1 < b.1 :=
  List.pairwise_map.mpr (hs.pairwise.filter _)

/-- A version lies below the oldest one exactly if a commit after it is not held. -/
theorem Follows.lt_oldest_iff (hs : s.Follows log) (ht : s.tables[i]? = some t) {v : Version} :
    v < t.history.oldest ↔
      ∃ c ∈ ofTable i log, v < c.version ∧ c.entry ∉ t.history.changes := by
  rw [(hs.retains ht).lt_oldest_iff (hs.entries_pairwise i)]
  constructor
  · rintro ⟨_, he, hlt, hheld⟩
    obtain ⟨c, hc, rfl⟩ := List.mem_map.mp he
    exact ⟨c, hc, hlt, hheld⟩
  · rintro ⟨c, hc, hlt, hheld⟩
    exact ⟨c.entry, List.mem_map_of_mem hc, hlt, hheld⟩

/-- What was dropped is not newer than the store. -/
theorem Follows.oldest_le (hs : s.Follows log) (ht : s.tables[i]? = some t) :
    t.history.oldest ≤ s.version := by
  refine Nat.le_of_not_lt fun hlt => ?_
  obtain ⟨c, hc, hversion, -⟩ := (hs.lt_oldest_iff ht).mp hlt
  exact Nat.not_lt.mpr (hs.version_le (List.mem_filter.mp hc).1) hversion

/-! ## Watches that resume -/

/-- A watch of a running table whose fields are declared is refused exactly if it lies below the
oldest version. -/
theorem act_watchFrom {kind : String} (hfind : s.find kind = .ok i) (ht : s.tables[i]? = some t)
    (scope : Scope) (m : Moment) {criteria : Criteria}
    (hdeclared : t.requireDeclared criteria = .ok ()) (hrun : t.stopped = false)
    (timeout : Option Nat) (since : Version) :
    (since < t.history.oldest ∧ (s.act (watchFrom kind scope m criteria timeout since)).1 =
      .answer (.error (.gone t.name since t.history.oldest))) ∨
    (t.history.oldest ≤ since ∧ ∃ h,
      (s.act (watchFrom kind scope m criteria timeout since)).1 = .answer (.ok (.watching h))) := by
  rw [watchFrom, answer_watch hfind ht]
  rcases opening_since (x := ⟨criteria, scope⟩) hdeclared hrun since with
    ⟨hlt, ho⟩ | ⟨hle, events, ho⟩
  · exact Or.inl ⟨hlt, by rw [ho]; rfl⟩
  · exact Or.inr ⟨hle, _, by rw [ho]; rfl⟩

/-! ### Why a watch is refused -/

theorem find_eq_error {kind : String} {e : Error} (h : s.find kind = .error e) :
    ∃ name, e = .unknownKind name := by
  rw [find, Catalog.lookup] at h
  cases hd : s.catalog.lookup? kind with
  | none =>
    rw [hd] at h
    exact ⟨_, (Except.error.inj h).symm⟩
  | some d =>
    rw [hd] at h
    cases hi : s.position? d.fullName with
    | none =>
      simp only [bind, Except.bind, hi] at h
      exact ⟨_, (Except.error.inj h).symm⟩
    | some i =>
      simp only [bind, Except.bind, hi] at h
      cases h

theorem requireDeclared_eq_error {criteria : Criteria} {e : Error}
    (h : t.requireDeclared criteria = .error e) :
    ∃ path, e = .invalidSelector (.unknownField path) := by
  simp only [Table.requireDeclared, Criteria.requireDeclared] at h
  split at h
  · exact ⟨_, (Except.error.inj h).symm⟩
  · cases h

/-- What is refused as gone passed the other checks, and lies below the oldest version. -/
theorem opening_gone {x : Selection} {since v oldest : Version} {name : String}
    (h : t.opening x (some since) = .error (.gone name v oldest)) :
    t.requireDeclared x.criteria = .ok () ∧ t.stopped = false ∧ since < t.history.oldest ∧
      name = t.name ∧ v = since ∧ oldest = t.history.oldest := by
  have hdeclared : t.requireDeclared x.criteria = .ok () := by
    cases hc : t.requireDeclared x.criteria with
    | ok u => rfl
    | error e =>
      obtain ⟨path, rfl⟩ := requireDeclared_eq_error hc
      rw [Table.opening, hc] at h
      cases h
  have hrun : t.stopped = false := by
    cases hstopped : t.stopped with
    | false => rfl
    | true =>
      rw [Table.opening, hdeclared, Table.requireRunning, hstopped] at h
      cases h
  refine ⟨hdeclared, hrun, ?_⟩
  rcases opening_since hdeclared hrun since with ⟨hlt, ho⟩ | ⟨-, events, ho⟩
  · cases ho.symm.trans h
    exact ⟨hlt, rfl, rfl, rfl⟩
  · cases ho.symm.trans h

/-- A watch is refused as gone only by a running table, for a version below the oldest one, which
the refusal names. -/
theorem act_gone {kind : String} {scope : Scope} {m : Moment} {criteria : Criteria}
    {timeout : Option Nat} {since v oldest : Version} {name : String}
    (h : (s.act (watchFrom kind scope m criteria timeout since)).1 =
      .answer (.error (.gone name v oldest))) :
    ∃ i t, s.find kind = .ok i ∧ s.tables[i]? = some t ∧ t.stopped = false ∧
      since < t.history.oldest ∧ oldest = t.history.oldest := by
  cases hfind : s.find kind with
  | error e =>
    obtain ⟨kind', rfl⟩ := find_eq_error hfind
    simp only [watchFrom, act, onKind, hfind] at h
    cases h
  | ok i =>
    cases ht : s.tables[i]? with
    | none =>
      simp only [watchFrom, act, onKind, hfind, ht] at h
      cases h
    | some t =>
      refine ⟨i, t, rfl, ht, ?_⟩
      rw [watchFrom, answer_watch hfind ht] at h
      cases ho : t.opening ⟨criteria, scope⟩ (some since) with
      | error e =>
        rw [ho] at h
        obtain rfl := Except.error.inj (Outcome.answer.inj h)
        obtain ⟨-, hrun, hlt, -, -, rfl⟩ := opening_gone ho
        exact ⟨hrun, hlt, rfl⟩
      | ok events =>
        rw [ho] at h
        cases h

/-! ## Every run -/

/-- A commit after a version is no longer held. -/
def Misses (t : Table) (log : List Commit) (since : Version) : Prop :=
  ∃ c ∈ log, since < c.version ∧ c.entry ∉ t.history.changes

/-- What holds between the history of a kind and the log of the store. -/
structure Remembers (s : Store) (kind : String) (t : Table) (log : List Commit) : Prop where
  /-- The history holds the last commits of the kind, oldest first. -/
  held : t.history.changes = (log.drop (log.length - s.limits.history)).map Commit.entry
  /-- It holds as many of them as it may. -/
  length : t.history.changes.length = min s.limits.history log.length
  ascending : t.history.changes.Pairwise fun a b => a.1 < b.1
  /-- A running store refuses a watch as gone exactly if it would miss a commit, and opens it
  otherwise. -/
  refused : t.stopped = false → ∀ scope m criteria timeout, t.requireDeclared criteria = .ok () →
    ∀ since,
      ((∃ oldest, (s.act (watchFrom kind scope m criteria timeout since)).1 =
        .answer (.error (.gone t.name since oldest))) ↔ Misses t log since) ∧
      (¬ Misses t log since → ∃ h,
        (s.act (watchFrom kind scope m criteria timeout since)).1 = .answer (.ok (.watching h)))
  /-- From the version that a refusal names, every watch can be opened. -/
  resumable : ∀ scope m criteria timeout since name v oldest,
    (s.act (watchFrom kind scope m criteria timeout since)).1 =
      .answer (.error (.gone name v oldest)) →
    ∀ scope' m' criteria' timeout', t.requireDeclared criteria' = .ok () →
      ∃ h, (s.act (watchFrom kind scope' m' criteria' timeout' oldest)).1 =
        .answer (.ok (.watching h))
  /-- From the version of a list, no watch is refused as gone. -/
  current : ∀ kind' scope' m' criteria' l,
    (s.act (.call kind' scope' m' (.request (.list criteria')))).1 = .answer (.ok (.listing l)) →
    ∀ scope m criteria timeout name v oldest,
      (s.act (watchFrom kind scope m criteria timeout l.version)).1 ≠
        .answer (.error (.gone name v oldest))

theorem Follows.remembers (hs : s.Follows log) (hbounded : s.Bounded) {kind : String}
    (hfind : s.find kind = .ok i) (ht : s.tables[i]? = some t) :
    s.Remembers kind t (ofTable i log) where
  held := by
    rw [(hs.retains ht).changes_eq, List.length_map, hbounded i t ht, List.map_drop]
  length := by
    obtain ⟨-, -, -, hlength⟩ := hs.retains ht
    rw [hlength, List.length_map, hbounded i t ht]
  ascending := (hs.retains ht).pairwise (hs.entries_pairwise i)
  refused hrun scope m criteria timeout hdeclared since := by
    rw [Misses, ← hs.lt_oldest_iff ht]
    rcases act_watchFrom hfind ht scope m hdeclared hrun timeout since with
      ⟨hlt, hgone⟩ | ⟨hle, h, hopened⟩
    · exact ⟨⟨fun _ => hlt, fun _ => ⟨_, hgone⟩⟩, fun hnot => absurd hlt hnot⟩
    · refine ⟨⟨?_, fun hlt => absurd hlt (Nat.not_lt.mpr hle)⟩, fun _ => ⟨h, hopened⟩⟩
      rintro ⟨oldest, hgone⟩
      cases hopened.symm.trans hgone
  resumable scope m criteria timeout since name v oldest hgone := by
    intro scope' m' criteria' timeout' hdeclared
    obtain ⟨j, t', hfind', ht', hrun, -, rfl⟩ := act_gone hgone
    obtain rfl := Except.ok.inj (hfind.symm.trans hfind')
    obtain rfl := Option.some.inj (ht.symm.trans ht')
    rcases act_watchFrom hfind ht scope' m' hdeclared hrun timeout' t.history.oldest with
      ⟨hlt, -⟩ | ⟨-, hopened⟩
    · exact absurd hlt (Nat.lt_irrefl _)
    · exact hopened
  current kind' scope' m' criteria' l hlist := by
    intro scope m criteria timeout name v oldest hgone
    obtain ⟨_, t₁, -, -, -, rfl⟩ := act_listed hlist
    obtain ⟨j, t', -, ht', -, hlt, -⟩ := act_gone hgone
    exact Nat.not_lt.mpr (hs.oldest_le ht') hlt

/-- **A history holds the last commits of its kind, and a watch is refused as gone exactly if it
would miss one that is no longer held.** -/
theorem retention_exact (catalog : Catalog) (limits : WatchLimits) (actions : List Action)
    {s : Store} {log : List Commit} (hs : s = (empty catalog limits).run actions)
    (hlog : log = (empty catalog limits).log actions) :
    s.limits = limits ∧ (.shutdown ∉ actions → s.Running) ∧
    ∀ kind i t, s.find kind = .ok i → s.tables[i]? = some t →
      s.Remembers kind t (ofTable i log) := by
  subst hs hlog
  have hempty := follows_empty catalog limits
  refine ⟨(sameKinds_run hempty actions).limits_eq, ?_, ?_⟩
  · intro hshutdown
    exact running_run hempty (running_empty catalog limits) hshutdown
  · intro kind i t hfind ht
    have hbounded := bounded_run hempty (bounded_empty catalog limits) actions
    exact (follows_reached catalog limits actions).remembers hbounded hfind ht

/-- Three creations where two are held: the first is gone, and the other two can be replayed. -/
theorem retention_exact_configs :
    ∃ t, (configStore.run [createConfig "a", createConfig "b", createConfig "c"]).tables[0]? =
        some t ∧
      t.history.changes.length = 2 ∧
      Misses t (ofTable 0 (configStore.log
        [createConfig "a", createConfig "b", createConfig "c"])) 0 ∧
      ∃ h, ((configStore.run [createConfig "a", createConfig "b", createConfig "c"]).act
        (watchConfigs 1)).1 = .answer (.ok (.watching h)) := by
  obtain ⟨-, -, hall⟩ := retention_exact configCatalog ⟨2, 1000, 2⟩
    [createConfig "a", createConfig "b", createConfig "c"] rfl rfl
  have h := hall "v1/ConfigMap" 0 _ rfl rfl
  let m : Moment := ⟨0, ⟨2024, 1, 1, 0, 0, 0, 0⟩, "uid", "suffix"⟩
  have hgone : ((configStore.run [createConfig "a", createConfig "b", createConfig "c"]).act
      (watchFrom "v1/ConfigMap" .all m .all none 0)).1 =
        .answer (.error (.gone "ConfigMap" 0 1)) := rfl
  refine ⟨_, rfl, h.length, ?_, ?_⟩
  · exact (h.refused rfl .all m .all none rfl 0).1.mp ⟨1, hgone⟩
  · exact h.resumable .all m .all none 0 _ _ _ hgone .all m .all none rfl

end Store

end ControlPlane
