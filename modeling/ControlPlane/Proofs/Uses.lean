import ControlPlane.Proofs.Clients
import ControlPlane.Proofs.Views

/-!
# Uses of a server

A server is used in three ways: something is done with it or its store, a typed client is given an
order, and the consumer of a typed stream takes what is next. The store cannot tell them apart: an
order is at most one call, and taking the next item is a poll, after which a stream that cannot read
its event drops its watch. So what holds of every run of a store holds of every use of a server.

* `Client.actions`, `Client.Watch.actions`: the actions that an order and a taken item come to.
* `Server.use`, `Server.uses`: a server after one use and after some.
* `Server.uses_store`: the store of a server that was used has run what the uses come to.
-/

namespace ControlPlane

/-! ## Typed clients -/

namespace Client

/-- What an order comes to: one call, or none if it is refused before it reaches the store. -/
def actions (c : Client) (m : Moment) (o : Order) : List Store.Action :=
  match c.request o with
  | .error _ => []
  | .ok r => [.call c.kind c.view.scope m (.request r)]

theorem mem_actions {c : Client} {m : Moment} {o : Order} {a : Store.Action} :
    a ∈ c.actions m o ↔
      ∃ r, c.request o = .ok r ∧ a = .call c.kind c.view.scope m (.request r) := by
  rw [actions]
  cases c.request o <;> simp

theorem carryOut_refused {c : Client} {o : Order} {e : Error} (h : c.request o = .error e)
    (s : Store) (m : Moment) : c.carryOut s m o = (.error e, s) := by
  rw [carryOut_eq, through_refused c s m h]

/-- An order that reaches the store is answered by what the store answers to its request. -/
theorem carryOut_requested {c : Client} {o : Order} {r : Store.Request} (h : c.request o = .ok r)
    (s : Store) (m : Moment) :
    c.carryOut s m o =
      (o.conclude ((s.perform c.kind c.view.scope m r).1.bind
        (c.read (s.perform c.kind c.view.scope m r).2.version)),
        (s.perform c.kind c.view.scope m r).2) := by
  rw [carryOut_eq]
  simp only [through, h]

/-- **An order leaves the store as its actions do.** -/
theorem carryOut_run (c : Client) (s : Store) (m : Moment) (o : Order) :
    (c.carryOut s m o).2 = s.run (c.actions m o) := by
  rw [actions]
  cases h : c.request o with
  | error e => rw [carryOut_refused h, Store.run_nil]
  | ok r =>
    rw [carryOut_requested h, Store.run_cons, Store.run_nil]
    rfl

/-- An order to a client takes a store that can be reached to one that can be reached. -/
theorem carryOut_reached {catalog : Catalog} {limits : WatchLimits} {actions : List Store.Action}
    {s : Store} (hs : s = (Store.empty catalog limits).run actions) (c : Client) (m : Moment)
    (o : Order) :
    (c.carryOut s m o).2 = (Store.empty catalog limits).run (actions ++ c.actions m o) := by
  rw [carryOut_run, hs, ← Store.run_append]

/-- A typed stream is one of the client's type, on the watch that the store opened. -/
theorem carryOut_opened {c : Client} {s : Store} {m : Moment} {since : String}
    {timeout : Option Nat} {labels fields : Option String} {w : Watch}
    (h : (c.carryOut s m (.watch since timeout labels fields)).1 = .ok (.watching w)) :
    ∃ criteria since', c.criteria labels fields = .ok criteria ∧
      c.request (.watch since timeout labels fields) = .ok (.watch criteria since' timeout) ∧
      (s.perform c.kind c.view.scope m (.watch criteria since' timeout)).1 =
        .ok (.watching w.handle) ∧ w.resource = c.resource ∧ w.broken = false := by
  cases hr : c.request (.watch since timeout labels fields) with
  | error e =>
    rw [carryOut_refused hr] at h
    cases h
  | ok r =>
    have hrequest := hr
    simp only [request, bind_eq_ok_iff, pure_eq_ok_iff] at hrequest
    obtain ⟨criteria, hcriteria, since', -, rfl⟩ := hrequest
    rw [carryOut_requested hr] at h
    obtain ⟨reply, hreply, hread⟩ := bind_eq_ok_iff.mp h
    refine ⟨criteria, since', hcriteria, rfl, ?_⟩
    cases reply with
    | watching handle =>
      cases hread
      exact ⟨hreply, rfl, rfl⟩
    | object o =>
      obtain ⟨_, -, hanswer⟩ := map_eq_ok_iff.mp hread
      cases hanswer
    | listing l =>
      obtain ⟨_, -, hanswer⟩ := map_eq_ok_iff.mp hread
      cases hanswer
    | tombstones objects =>
      obtain ⟨_, -, hanswer⟩ := map_eq_ok_iff.mp hread
      cases hanswer

namespace Watch

/-- What taking the next item comes to: nothing on a broken stream; otherwise a poll, and the watch
is dropped if the event does not decode. -/
def actions (w : Watch) (s : Store) (now : Nat) : List Store.Action :=
  if w.broken then []
  else
    .poll now w.handle ::
      match (s.poll now w.handle).1 with
      | .event e =>
        match w.resource.decode e.object with
        | .ok _ => []
        | .error _ => [.dropWatch w.handle]
      | _ => []

/-- **Taking the next item leaves the store as its actions do.** -/
theorem poll_run (w : Watch) (s : Store) (now : Nat) :
    (w.poll s now).2.2 = s.run (w.actions s now) := by
  have hact : (s.act (.poll now w.handle)).2 = (s.poll now w.handle).2 := rfl
  unfold poll actions
  split
  · rfl
  · rw [Store.run_cons, hact]
    generalize s.poll now w.handle = p
    obtain ⟨item, s'⟩ := p
    cases item with
    | event e =>
      dsimp only
      cases w.resource.decode e.object <;> rfl
    | _ => rfl

end Watch

/-! ### Clients of config maps -/

/-- A catalog of config maps alone, under their short name too. -/
def configCatalog : Catalog :=
  ⟨[.ofKind Schema.configMap], [("ConfigMap", 0), ("v1/ConfigMap", 0)]⟩

/-- A client of the config maps of a namespace. -/
def configClient : Client :=
  ⟨Schema.configMap.resource, .base, .ofKind Schema.configMap, some "default"⟩

end Client

/-! ## Servers -/

namespace Server

/-- A use of a server. -/
inductive Use where
  | act (a : Action)
  | order (c : Client) (m : Moment) (o : Client.Order)
  | next (w : Client.Watch) (now : Nat)

/-- The server after a use. -/
def use (s : Server) : Use → Server
  | .act a => s.act a
  | .order c m o => { s with store := (c.carryOut s.store m o).2 }
  | .next w now => { s with store := (w.poll s.store now).2.2 }

/-- The server after some uses. -/
def uses (s : Server) (us : List Use) : Server := us.foldl use s

/-- What a use comes to in the store. -/
def Use.actions (s : Store) : Use → List Store.Action
  | .act a => a.store?.toList
  | .order c m o => c.actions m o
  | .next w now => w.actions s now

/-- What some uses come to in the store. -/
def actions (s : Server) : List Use → List Store.Action
  | [] => []
  | u :: us => u.actions s.store ++ (s.use u).actions us

theorem use_store (s : Server) (u : Use) :
    (s.use u).store = s.store.run (u.actions s.store) := by
  cases u with
  | act a =>
    rw [show s.use (.act a) = s.run [a] from rfl, run_store, Use.actions]
    cases a <;> rfl
  | order c m o => exact c.carryOut_run s.store m o
  | next w now => exact w.poll_run s.store now

/-- **The store of a server has run what the uses come to.** -/
theorem uses_store (s : Server) (us : List Use) :
    (s.uses us).store = s.store.run (s.actions us) := by
  induction us generalizing s with
  | nil => rfl
  | cons u us ih =>
    rw [actions, Store.run_append, ← use_store]
    exact ih (s.use u)

section Started

variable (catalog : Catalog) (limits : WatchLimits) (x : ViewScheme)
  (views : List (String × Option (List String)))

/-- A server starts with an empty store, whatever views it has. -/
theorem start_store : (start catalog limits x views).store = Store.empty catalog limits := by
  have hviews : ((views.map fun v => Action.addView v.1 v.2).filterMap Action.store?) = [] := by
    induction views with
    | nil => rfl
    | cons v views ih => exact ih
  rw [start_eq_run, run_store, hviews]
  rfl

/-- **The store of a server was empty and has run what the uses come to.** -/
theorem uses_start (us : List Use) :
    ((start catalog limits x views).uses us).store =
      (Store.empty catalog limits).run ((start catalog limits x views).actions us) := by
  rw [uses_store, start_store]

theorem exists_run_uses (us : List Use) :
    ∃ actions, ((start catalog limits x views).uses us).store =
      (Store.empty catalog limits).run actions :=
  ⟨_, uses_start catalog limits x views us⟩

end Started

end Server

end ControlPlane
