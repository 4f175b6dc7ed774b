import ControlPlane.Proofs.Delivery
import ControlPlane.Proofs.Uses
import ControlPlane.Proofs.Watchers

/-!
# Shutdown is final

Every mutation asks whether its table still runs, each after checks of its own, and so does a watch
before it is opened. Nothing makes a stopped table run again. So once a server is stopped, only
reads are answered, and they are answered from the records as they were; and what is left to a watch
is what it holds.

* `Work.serve_stopped`: a stopped table refuses everything but reads.
* `Store.Final`: what a store keeps of itself once it is stopped. `Store.Final.act`: every action
  keeps it, and another shutdown is one of them.
* `Store.Watches.drained`: what a watch yields that was live when its store was stopped.
* `Server.shutdown_final`: a server that was stopped and is used after that, in any way.
-/

namespace ControlPlane

/-! ## Requests to a stopped table -/

namespace Focus

variable {f : Focus} {scope : Scope} {m : Moment}

theorem create_stopped (h : f.table.stopped = true) (o : Object) :
    ∃ e, f.create scope m o = (.error e, f) := by
  cases hd : f.table.creation scope m.suffix o with
  | error e => exact ⟨e, create_refused hd⟩
  | ok p =>
    obtain ⟨-, -, -, -, hrun, -⟩ := Table.creation_eq_ok_iff.mp hd
    cases hrun.symm.trans h

theorem replace_stopped (h : f.table.stopped = true) (verb : Verb) (o : Object)
    (expected : Option Version) (x : Option Subresource) :
    ∃ e, f.replace scope m verb o expected x = (.error e, f) := by
  cases hd : f.table.revision scope o expected x with
  | error e => exact ⟨e, replace_refused hd⟩
  | ok p =>
    obtain ⟨-, -, -, hrun, -⟩ := Table.revision_eq_ok_iff.mp hd
    cases hrun.symm.trans h

/-- A patch is computed even on a stopped table, but it is not written back. -/
theorem patch_stopped (h : f.table.stopped = true) (key : Key) (x : Option Subresource)
    (p : Patch) : ∃ e, f.patch scope m key x p = (.error e, f) := by
  cases hd : f.patched scope m key x p with
  | error e => exact ⟨e, patch_refused hd⟩
  | ok q =>
    rw [patch_computed hd]
    exact replace_stopped h ..

theorem delete_stopped (h : f.table.stopped = true) (key : Key) (precondition : Option Version) :
    ∃ e, f.delete scope m key precondition = (.error e, f) := by
  cases hd : f.table.removal scope key precondition with
  | error e => exact ⟨e, delete_refused hd⟩
  | ok r =>
    obtain ⟨hrun, -⟩ := Table.removal_eq_ok_iff.mp hd
    cases hrun.symm.trans h

theorem deleteCollection_stopped (h : f.table.stopped = true) (criteria : Criteria) :
    ∃ e, f.deleteCollection scope m criteria = (.error e, f) := by
  cases hd : f.table.removals scope criteria with
  | error e => exact ⟨e, by simp only [deleteCollection, hd]⟩
  | ok keys =>
    obtain ⟨-, hrun, -⟩ := Table.removals_eq_ok_iff.mp hd
    cases hrun.symm.trans h

theorem watch_stopped (h : f.table.stopped = true) (criteria : Criteria) (since : Option Version)
    (timeout : Option Nat) : ∃ e, f.watch scope m criteria since timeout = (.error e, f) := by
  cases ho : f.table.opening ⟨criteria, scope⟩ since with
  | error e => exact ⟨e, by simp only [watch, ho]⟩
  | ok events =>
    obtain ⟨-, hrun, -⟩ := Store.opening_eq_ok_iff.mp ho
    cases hrun.symm.trans h

end Focus

namespace Store

/-- The call reads an object or lists some. -/
def Work.isRead : Work → Bool
  | .request (.get _) => true
  | .request (.list _) => true
  | _ => false

/-- **A stopped table refuses everything but reads**, and stays as it is. -/
theorem Work.serve_stopped {f : Focus} (h : f.table.stopped = true) {w : Work}
    (hw : w.isRead = false) (scope : Scope) (m : Moment) :
    ∃ e, w.serve scope m f = (.error e, f) := by
  have refused {α : Type} {result : Except Error α × Focus} (reply : α → Reply)
      (hresult : ∃ e, result = (.error e, f)) :
      ∃ e, (result.1.map reply, result.2) = (.error e, f) := by
    obtain ⟨e, rfl⟩ := hresult
    exact ⟨e, rfl⟩
  cases w with
  | writeBack o read x => exact refused .object (Focus.replace_stopped h ..)
  | request r =>
    cases r with
    | create o => exact refused .object (Focus.create_stopped h o)
    | get key => cases hw
    | list criteria => cases hw
    | watch criteria since timeout => exact refused _ (Focus.watch_stopped h criteria since timeout)
    | update o expected subresource =>
      simp only [serve, Store.serve]
      cases subresource.mapM f.table.definition.subresource with
      | error e => exact ⟨e, rfl⟩
      | ok x => exact refused .object (Focus.replace_stopped h ..)
    | patch key subresource p =>
      simp only [serve, Store.serve]
      cases subresource.mapM f.table.definition.subresource with
      | error e => exact ⟨e, rfl⟩
      | ok x => exact refused .object (Focus.patch_stopped h key x p)
    | delete key precondition => exact refused .object (Focus.delete_stopped h key precondition)
    | deleteCollection criteria =>
      exact refused .tombstones (Focus.deleteCollection_stopped h criteria)

/-- A read leaves the store as it is. -/
theorem act_read (s : Store) {w : Work} (hw : w.isRead = true) (kind : String) (scope : Scope)
    (m : Moment) : (s.act (.call kind scope m w)).2 = s := by
  cases w with
  | writeBack o read x => cases hw
  | request r =>
    cases r with
    | get key => exact s.onKind_read kind fun f => (f.get scope key).map Reply.object
    | list criteria => exact s.onKind_read kind fun f => (f.list scope criteria).map Reply.listing
    | _ => cases hw

end Store

/-! ## What is final -/

/-- The table once it is stopped: everything that is stored is as it was, and no watch is registered
any more. -/
structure Table.Final (t t' : Table) : Prop where
  definition_eq : t'.definition = t.definition
  records_eq : t'.records = t.records
  history_eq : t'.history = t.history
  nextWatch_eq : t'.nextWatch = t.nextWatch
  stopped : t'.stopped = true
  silent : t'.liveWatches = []

theorem Watch.stable_ended (d : Definition) (capacity : Nat) :
    Stable d capacity (fun w => w.phase ≠ .live) fun _ => True where
  close w reason _ := w.close_phase reason
  receive w now version c _ hw := by
    cases hphase : w.phase with
    | live => exact absurd hphase hw
    | ended reason =>
      rw [receive_ended hphase]
      exact hw
  take w hw := by
    cases hfinished : w.finished with
    | true =>
      rw [take_finished hfinished]
      exact hw
    | false =>
      cases hheld : w.held with
      | cons e events =>
        obtain ⟨-, -, -, hphase, -⟩ := take_held hfinished hheld
        rw [hphase]
        exact hw
      | nil =>
        obtain ⟨hinitial, hqueue⟩ := initial_eq_nil hheld
        cases hphase : w.phase with
        | live => exact absurd hphase hw
        | ended reason =>
          rw [take_terminal hfinished hinitial hqueue hphase]
          exact hw

namespace Table

theorem liveWatches_eq_nil_iff {t : Table} :
    t.liveWatches = [] ↔ t.EachWatch fun w => w.phase ≠ .live := by
  rw [liveWatches, List.filter_eq_nil_iff]
  simp only [EachWatch, Watch.isLive, decide_eq_true_eq]

variable {t : Table} {f f' : Focus}

theorem final_stop (t : Table) : t.Final t.stop where
  definition_eq := rfl
  records_eq := rfl
  history_eq := rfl
  nextWatch_eq := rfl
  stopped := rfl
  silent := by
    rw [liveWatches_eq_nil_iff]
    intro w hw
    obtain ⟨w', -, rfl⟩ := List.mem_map.mp hw
    exact w'.close_phase _

theorem Final.trans {t' t'' : Table} (h : t.Final t') (h' : t'.Final t'') : t.Final t'' where
  definition_eq := h'.definition_eq.trans h.definition_eq
  records_eq := h'.records_eq.trans h.records_eq
  history_eq := h'.history_eq.trans h.history_eq
  nextWatch_eq := h'.nextWatch_eq.trans h.nextWatch_eq
  stopped := h'.stopped
  silent := h'.silent

/-- What the consumers of its watches do keeps a table final. -/
theorem Final.still (h : t.Final f.table) (hstill : f.Still f')
    (hnext : f'.table.nextWatch = f.table.nextWatch)
    (hwatches : f.table.EachWatch (fun w => w.phase ≠ .live) →
      f'.table.EachWatch fun w => w.phase ≠ .live) : t.Final f'.table where
  definition_eq := hstill.definition_eq.trans h.definition_eq
  records_eq := hstill.records_eq.trans h.records_eq
  history_eq := hstill.history_eq.trans h.history_eq
  nextWatch_eq := hnext.trans h.nextWatch_eq
  stopped := hstill.stopped_eq.trans h.stopped
  silent := liveWatches_eq_nil_iff.mpr (hwatches (liveWatches_eq_nil_iff.mp h.silent))

theorem Final.poll (h : t.Final f.table) (now id : Nat) : t.Final (f.poll now id).2.table := by
  apply h.still (f.still_poll now id)
  · unfold Focus.poll
    cases f.table.watch? id <;> rfl
  · exact fun hf => Focus.eachWatch_poll (Watch.stable_ended _ 0) hf now id

theorem Final.stopWatch (h : t.Final f.table) (id : Nat) : t.Final (f.stopWatch id).table := by
  apply h.still (f.still_stopWatch id)
  · unfold Focus.stopWatch
    cases f.table.watch? id <;> rfl
  · exact fun hf => Focus.eachWatch_stopWatch (Watch.stable_ended _ 0) hf id

theorem Final.dropWatch (h : t.Final f.table) (id : Nat) : t.Final (f.dropWatch id).table :=
  h.still (f.still_dropWatch id) rfl fun hf => Focus.eachWatch_dropWatch hf id

end Table

namespace Store

variable {s s' : Store} {log : List Commit}

/-- The store once it is stopped: it has the version it had, and every table is final. -/
structure Final (s s' : Store) : Prop where
  sameKinds : s.SameKinds s'
  version_eq : s'.version = s.version
  tables : ∀ (i : Nat) (t t' : Table), s.tables[i]? = some t → s'.tables[i]? = some t' →
    t.Final t'

theorem final_shutdown (s : Store) : s.Final s.shutdown where
  sameKinds := sameKinds_shutdown s
  version_eq := rfl
  tables i t t' ht ht' := by
    replace ht' : (s.tables.map Table.stop)[i]? = some t' := ht'
    rw [List.getElem?_map, ht] at ht'
    obtain rfl := Option.some.inj ht'
    exact t.final_stop

/-- **A stopped store refuses everything but reads**, and no call changes it. -/
theorem Final.refuses (h : s.Final s') {w : Work} (hw : w.isRead = false) (kind : String)
    (scope : Scope) (m : Moment) :
    ∃ e, s'.act (.call kind scope m w) = (.answer (.error e), s') := by
  rcases onKind_cases s' kind (w.serve scope m) with ⟨e, hkind⟩ | ⟨i, t', hfind, ht', -⟩
  · exact ⟨e, by simp only [act, hkind]⟩
  · obtain ⟨t, ht⟩ := h.sameKinds.symm.table_some ht'
    obtain ⟨e, hserve⟩ :=
      Work.serve_stopped (f := s'.focus t') (h.tables i t t' ht ht').stopped hw scope m
    refine ⟨e, ?_⟩
    rw [act_call hfind ht', hserve, absorb_focus ht']

theorem Final.act_call (h : s.Final s') (kind : String) (scope : Scope) (m : Moment) (w : Work) :
    (s'.act (.call kind scope m w)).2 = s' := by
  cases hw : w.isRead with
  | true => exact s'.act_read hw kind scope m
  | false =>
    obtain ⟨e, hact⟩ := h.refuses hw kind scope m
    rw [hact]

theorem Final.onWatch {α : Type} (h : s.Final s') (handle : WatchHandle)
    {operation : Focus → α × Focus}
    (hkinds : s'.SameKinds (s'.onWatch handle operation).2)
    (hversion : ∀ f : Focus, (operation f).2.version = f.version)
    (hkeep : ∀ (t : Table) (f : Focus), t.Final f.table → t.Final (operation f).2.table) :
    s.Final (s'.onWatch handle operation).2 := by
  refine ⟨h.sameKinds.trans hkinds, ?_, ?_⟩
  · rcases onWatch_cases s' handle operation with ⟨heq, -⟩ | ⟨i, t, -, ht, heq⟩
    · rw [heq]
      exact h.version_eq
    · rw [heq]
      exact (hversion _).trans h.version_eq
  · intro j t t' ht ht'
    rcases onWatch_cases s' handle operation with ⟨heq, -⟩ | ⟨i, t₀, -, ht₀, heq⟩
    · rw [heq] at ht'
      exact h.tables j t t' ht ht'
    · rw [heq] at ht'
      rcases tables_absorb ht₀ ht' with ⟨rfl, rfl⟩ | ⟨-, ht'⟩
      · exact hkeep t (s'.focus t₀) (h.tables i t t₀ ht ht₀)
      · exact h.tables j t t' ht ht'

/-- **Nothing that is done with a stopped store changes what is final.** -/
theorem Final.act (h : s.Final s') (hs' : s'.Follows log) (a : Action) : s.Final (s'.act a).2 := by
  have hkinds := sameKinds_act hs' a
  cases a with
  | call kind scope m w =>
    rw [h.act_call kind scope m w]
    exact h
  | poll now handle =>
    show s.Final (s'.onWatch handle fun f => f.poll now handle.id).2
    exact h.onWatch handle hkinds (fun f => (f.still_poll now handle.id).version_eq)
      fun t f hf => hf.poll now handle.id
  | stopWatch handle =>
    exact h.onWatch handle hkinds (fun f => (f.still_stopWatch handle.id).version_eq)
      fun t f hf => hf.stopWatch handle.id
  | dropWatch handle =>
    exact h.onWatch handle hkinds (fun f => (f.still_dropWatch handle.id).version_eq)
      fun t f hf => hf.dropWatch handle.id
  | shutdown =>
    refine ⟨h.sameKinds.trans hkinds, h.version_eq, ?_⟩
    intro i t t'' ht ht''
    obtain ⟨t', ht'⟩ := h.sameKinds.table_some ht
    exact (h.tables i t t' ht ht').trans (s'.final_shutdown.tables i t' t'' ht' ht'')

theorem Final.run (h : s.Final s') (hs' : s'.Follows log) (actions : List Action) :
    s.Final (s'.run actions) := by
  induction actions generalizing s' log with
  | nil => exact h
  | cons a actions ih => exact ih (h.act hs' a) (hs'.act a)

/-! ### Reads -/

theorem Final.serve_read {t t' : Table} (h : t.Final t') (hversion : s'.version = s.version)
    {w : Work} (hw : w.isRead = true) (scope : Scope) (m : Moment) :
    (w.serve scope m (s'.focus t')).1 = (w.serve scope m (s.focus t)).1 := by
  cases w with
  | writeBack o read x => cases hw
  | request r =>
    cases r with
    | get key =>
      simp only [Work.serve, serve, Focus.get, focus, Table.record, Table.visible?, Table.missing,
        Table.name, h.records_eq, h.definition_eq]
    | list criteria =>
      simp only [Work.serve, serve, Focus.list, focus, Table.requireDeclared, Table.select,
        h.records_eq, h.definition_eq, hversion]
    | _ => cases hw

/-- **A stopped store answers reads as it did before.** -/
theorem Final.reads (h : s.Final s') {w : Work} (hw : w.isRead = true) (kind : String)
    (scope : Scope) (m : Moment) :
    (s'.act (.call kind scope m w)).1 = (s.act (.call kind scope m w)).1 := by
  simp only [Store.act, onKind, h.sameKinds.find_eq]
  cases s.find kind with
  | error e => rfl
  | ok i =>
    dsimp only
    cases ht : s.tables[i]? with
    | some t =>
      obtain ⟨t', ht'⟩ := h.sameKinds.table_some ht
      rw [ht']
      exact congrArg Outcome.answer (serve_read (h.tables i t t' ht ht') h.version_eq hw scope m)
    | none =>
      cases ht' : s'.tables[i]? with
      | none => rfl
      | some t' =>
        obtain ⟨t, hsome⟩ := h.sameKinds.symm.table_some ht'
        cases ht.symm.trans hsome

end Store

/-! ### Typed clients -/

namespace Client

/-- The order reads an object or lists some. -/
def Order.isRead : Order → Bool
  | .get _ => true
  | .find _ => true
  | .list .. => true
  | _ => false

theorem isRead_request {c : Client} {o : Order} {r : Store.Request} (h : c.request o = .ok r) :
    (Store.Work.request r).isRead = o.isRead := by
  cases o with
  | watch since timeout labels fields =>
    simp only [request, bind_eq_ok_iff, pure_eq_ok_iff] at h
    obtain ⟨_, -, _, -, rfl⟩ := h
    rfl
  | get name => cases h; rfl
  | find name => cases h; rfl
  | patch name p subresource => cases h; rfl
  | delete name => cases h; rfl
  | _ =>
    obtain ⟨_, -, rfl⟩ := map_eq_ok_iff.mp h
    rfl

theorem conclude_of_other {o : Order} (ho : o.isRead = false) (answer : Except Error Answer) :
    o.conclude answer = answer := by
  cases o with
  | find name => cases ho
  | _ => rfl

end Client

namespace Store

variable {s s' : Store} (c : Client) (m : Moment) {o : Client.Order}

/-- The answer to a call is what the store does on the request. -/
theorem act_request (s : Store) (kind : String) (scope : Scope) (m : Moment) (r : Request) :
    s.act (.call kind scope m (.request r)) =
      (.answer (s.perform kind scope m r).1, (s.perform kind scope m r).2) := rfl

theorem Final.refuses_order (h : s.Final s') (ho : o.isRead = false) :
    ∃ e, c.carryOut s' m o = (.error e, s') := by
  cases hr : c.request o with
  | error e => exact ⟨e, Client.carryOut_refused hr s' m⟩
  | ok r =>
    obtain ⟨e, hact⟩ :=
      h.refuses ((Client.isRead_request hr).trans ho) c.kind c.view.scope m
    rw [act_request, Prod.mk.injEq, Outcome.answer.injEq] at hact
    refine ⟨e, ?_⟩
    rw [Client.carryOut_requested hr, hact.1, hact.2, Client.conclude_of_other ho]
    rfl

theorem Final.reads_order (h : s.Final s') (ho : o.isRead = true) :
    (c.carryOut s' m o).1 = (c.carryOut s m o).1 := by
  cases hr : c.request o with
  | error e => rw [Client.carryOut_refused hr, Client.carryOut_refused hr]
  | ok r =>
    have hread : (Work.request r).isRead = true := (Client.isRead_request hr).trans ho
    have hanswer := h.reads hread c.kind c.view.scope m
    have hstill := s.act_read hread c.kind c.view.scope m
    have hstill' := s'.act_read hread c.kind c.view.scope m
    rw [act_request, act_request, Outcome.answer.injEq] at hanswer
    rw [act_request] at hstill hstill'
    rw [Client.carryOut_requested hr, Client.carryOut_requested hr]
    dsimp only at hanswer hstill hstill' ⊢
    rw [hanswer, hstill, hstill', h.version_eq]

/-! ## Watches -/

/-- The action is that the consumer of the watch takes the next item. -/
def Action.takes (h : WatchHandle) : Action → Bool
  | .poll _ h' => h' = h
  | _ => false

theorem polls_feed (s : Store) (i : Nat) (h : WatchHandle) (actions : List Action) :
    Watch.polls (s.feed i h actions) = actions.countP (·.takes h) := by
  induction actions generalizing s with
  | nil => rfl
  | cons a actions ih =>
    have hone : Watch.polls (s.inputs i h a) = if a.takes h then 1 else 0 := by
      cases a with
      | call kind scope m w =>
        rw [inputs, Watch.polls, List.countP_map]
        exact List.countP_eq_zero.mpr fun c _ => by simp [Watch.Input.isPoll]
      | poll now h' =>
        rw [inputs, Action.takes]
        by_cases hh : h' = h
        · simp [hh, Watch.polls, Watch.Input.isPoll]
        · simp [hh, Watch.polls]
      | stopWatch h' =>
        show Watch.polls (if h' = h then [.stop] else []) = 0
        split <;> rfl
      | dropWatch h' => rfl
      | shutdown => rfl
    rw [feed, Watch.polls, List.countP_append, List.countP_cons, ← ih (s.act a).2]
    rw [Watch.polls] at hone
    rw [hone, Nat.add_comm]
    rfl

/-- **What a watch yields that was live when its store was stopped**: what it held, then that the
store was shut down, then nothing. When its consumer takes that, and what else happens, does not
matter. -/
theorem Watches.drained {log : List Commit} {i : Nat} {h : WatchHandle} {t : Table} {w : Watch}
    (hs : s.Follows log) (hw : s.Watches i h t w) (hopen : w.Open) {actions : List Action}
    (hkept : .dropWatch h ∉ actions) :
    s.shutdown.items h actions =
      Watch.drain (some .shuttingDown) w.held (actions.countP (·.takes h)) := by
  obtain ⟨⟨t', ht', hw'⟩, -⟩ := hw.fed hs .shutdown nofun
  have hclosed : w.after t.definition s.limits.queueCapacity (s.inputs i h .shutdown) =
      w.close (some .shuttingDown) := rfl
  rw [hclosed] at hw'
  have hwatches : s.shutdown.Watches i h t' (w.close (some .shuttingDown)) :=
    ⟨(sameKinds_shutdown s).position?_eq _ ▸ hw.position_eq, ht', hw'⟩
  have hphase : (w.close (some .shuttingDown)).phase = .ended (some .shuttingDown) := by
    rw [Watch.close_live hopen.live]
  have hfinished : (w.close (some .shuttingDown)).finished = false := by
    rw [Watch.close_live hopen.live]
    exact hopen.unfinished
  rw [(hwatches.fed_run (follows_shutdown hs) actions hkept).2, Watch.items_ended hphase hfinished,
    polls_feed, Watch.close_live hopen.live]
  rfl

end Store

/-! ## Servers -/

namespace Server

variable (catalog : Catalog) (limits : WatchLimits) (x : ViewScheme)
  (views : List (String × Option (List String)))

/-- **Shutdown is final.** A server that was used in any way is stopped, and used in any way after
that, which may be another shutdown. Then every call through any scope and every order to a typed
client fails that does not only read, and leaves the store as it is; reads are answered as before
the shutdown; and the version, the records and the history of every kind are those before the
shutdown, with no watch registered and none opened since. A watch that was live at the shutdown and
is not dropped yields what it held, then that the store was shut down, then nothing. -/
theorem shutdown_final (before after : List Use) {s₀ s : Server}
    (hs₀ : s₀ = (start catalog limits x views).uses before) (hs : s = s₀.stop.uses after) :
    (∀ (kind : String) (scope : Scope) (m : Moment) (w : Store.Work), w.isRead = false →
      ∃ e, s.store.act (.call kind scope m w) = (.answer (.error e), s.store)) ∧
    (∀ (c : Client) (m : Moment) (o : Client.Order), o.isRead = false →
      ∃ e, c.carryOut s.store m o = (.error e, s.store)) ∧
    (∀ (kind : String) (scope : Scope) (m : Moment) (w : Store.Work), w.isRead = true →
      (s.store.act (.call kind scope m w)).1 = (s₀.store.act (.call kind scope m w)).1) ∧
    (∀ (c : Client) (m : Moment) (o : Client.Order), o.isRead = true →
      (c.carryOut s.store m o).1 = (c.carryOut s₀.store m o).1) ∧
    s₀.store.Final s.store ∧
    (∀ (i : Nat) (h : WatchHandle) (t : Table) (w : Watch), s₀.store.Watches i h t w →
      w.isLive = true → .dropWatch h ∉ s₀.stop.actions after →
      s₀.stop.store.items h (s₀.stop.actions after) =
        Watch.drain (some .shuttingDown) w.held ((s₀.stop.actions after).countP (·.takes h))) := by
  obtain ⟨actions, hactions⟩ : ∃ actions, s₀.store = (Store.empty catalog limits).run actions :=
    hs₀ ▸ exists_run_uses catalog limits x views before
  have hfollows := Store.follows_reached catalog limits actions
  rw [← hactions] at hfollows
  have hfinal : s₀.store.Final s.store := by
    rw [hs, uses_store]
    exact s₀.store.final_shutdown.run (Store.follows_shutdown hfollows) _
  refine ⟨fun kind scope m w hw => hfinal.refuses hw kind scope m,
    fun c m o ho => hfinal.refuses_order c m ho,
    fun kind scope m w hw => hfinal.reads hw kind scope m,
    fun c m o ho => hfinal.reads_order c m ho, hfinal, ?_⟩
  intro i h t w hw hlive hkept
  have hunfinished : w.Unfinished := by
    have hrun := Store.unfinished_run (Store.follows_empty catalog limits)
      (Store.eachWatch_empty _ catalog limits) actions
    rw [← hactions] at hrun
    exact hrun i t hw.table_eq w (List.mem_of_find?_eq_some hw.watch_eq)
  have hphase : w.phase = .live := by simpa [Watch.isLive] using hlive
  exact hw.drained hfollows ⟨hphase, hunfinished hphase⟩ hkept

/-- A server with a config map that a watch has not shown yet. -/
def watchedServer : Server :=
  (start Client.configCatalog ⟨2, 1000, 2⟩ .standard []).uses
    [.act (.store (Store.createConfig "a")), .act (.store (Store.watchConfigs 0))]

/-- A second shutdown, a deletion, and three items taken long after the deadline of the watch. -/
def usesAfterStop : List Use :=
  [.act (.store .shutdown),
    .order Client.configClient ⟨1, ⟨2024, 1, 1, 0, 0, 0, 0⟩, "u", "s"⟩ (.delete "a"),
    .act (.store (.poll 5000 ⟨"v1/ConfigMap", 0⟩)), .act (.store (.poll 6000 ⟨"v1/ConfigMap", 0⟩)),
    .act (.store (.poll 7000 ⟨"v1/ConfigMap", 0⟩))]

/-- The config map is still there, and the watch shows it before it ends. -/
theorem shutdown_final_configs :
    ∃ t w, watchedServer.store.Watches 0 ⟨"v1/ConfigMap", 0⟩ t w ∧ w.isLive = true ∧
      w.held.length = 1 ∧ t.records.length = 1 ∧
      watchedServer.store.Final (watchedServer.stop.uses usesAfterStop).store ∧
      watchedServer.stop.store.items ⟨"v1/ConfigMap", 0⟩
          (watchedServer.stop.actions usesAfterStop) =
        Watch.drain (some .shuttingDown) w.held 3 := by
  have hwatches : ∃ t w, watchedServer.store.Watches 0 ⟨"v1/ConfigMap", 0⟩ t w ∧
      w.isLive = true ∧ w.held.length = 1 ∧ t.records.length = 1 :=
    ⟨_, _, ⟨rfl, rfl, rfl⟩, rfl, rfl, rfl⟩
  obtain ⟨t, w, hw, hlive, hheld, hrecords⟩ := hwatches
  have hserver : watchedServer = (start Client.configCatalog ⟨2, 1000, 2⟩ .standard []).uses
      [.act (.store (Store.createConfig "a")), .act (.store (Store.watchConfigs 0))] := rfl
  obtain ⟨-, -, -, -, hfinal, hdrained⟩ := shutdown_final Client.configCatalog ⟨2, 1000, 2⟩
    .standard [] _ usesAfterStop hserver rfl
  have hkept : .dropWatch ⟨"v1/ConfigMap", 0⟩ ∉ watchedServer.stop.actions usesAfterStop := by
    simp [usesAfterStop, actions, Use.actions, Action.store?, Client.actions, Client.request]
  exact ⟨t, w, hw, hlive, hheld, hrecords, hfinal, hdrained 0 _ t w hw hlive hkept⟩

end Server

end ControlPlane
