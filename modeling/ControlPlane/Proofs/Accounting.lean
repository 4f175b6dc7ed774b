import ControlPlane.Proofs.Accounts
import ControlPlane.Proofs.Uses

/-!
# What the counters account for

The counters of a store agree with what is there and with what happened: every version is one
mutation that was counted, the objects of a kind are those that were created and not deleted, a
watch that was opened is live, or was closed by the server and counted so, or was ended by its
consumer, and the events that were counted are those that came into queues. Nothing is counted twice
and nothing is missed, in whatever order things happen. Tables of one name share their counters, so
all this is about the tables of a name together.

* `Store.balances_absorb`: the account of a store changes as that of the table does which an action
  is about.
* `Store.Work.serve_counted`: what a call does, and under which verb it is counted.
* `Store.accounts_act`, `Store.balances_run`: what an action does, and what a run does.
* `Server.accounted`: every state of every server is accounted for by what led to it.
-/

namespace ControlPlane

/-! ## The account of a store -/

theorem Table.size_stop (t : Table) : t.stop.size = { t.size with watchers := 0 } := by
  have hnone : t.stop.watches.countP Watch.isLive = 0 := by
    rw [List.countP_eq_zero]
    intro w hw
    obtain ⟨w', -, rfl⟩ := List.mem_map.mp hw
    simp [Watch.isLive_close]
  rw [← Table.size_watchers] at hnone
  rw [← hnone]
  rfl

namespace Store

/-- The total of the tables of one name, in some measure of their sizes. -/
def total (s : Store) (kind : String) (measure : TableSize → Nat) : Nat :=
  (((s.tables.map Table.size).filter (·.kind = kind)).map measure).sum

/-- The account of a store. -/
def account (s : Store) (kind : String) : Account :=
  .read s.version s.counters kind (s.total kind (·.objects)) (s.total kind (·.watchers))

theorem total_eq (s : Store) (kind : String) (measure : TableSize → Nat) :
    s.total kind measure = (s.tables.map (·.share kind measure)).sum := by
  rw [total]
  induction s.tables with
  | nil => rfl
  | cons t tables ih =>
    by_cases ht : t.name = kind
    · have hsize : t.size.kind = kind := ht
      simp [Table.share, ht, hsize, ih]
    · have hsize : t.size.kind ≠ kind := ht
      simp [Table.share, ht, hsize, ih]

/-- Replacing one element of a list replaces its share of a sum. -/
theorem sum_map_set {α : Type} (g : α → Nat) {l : List α} {i : Nat} {x : α}
    (hx : l[i]? = some x) (y : α) :
    ((l.set i y).map g).sum + g x = (l.map g).sum + g y := by
  induction l generalizing i with
  | nil => cases hx
  | cons z l ih =>
    cases i with
    | zero =>
      obtain rfl := Option.some.inj hx
      simp only [List.set_cons_zero, List.map_cons, List.sum_cons]
      omega
    | succ i =>
      have := ih hx
      simp only [List.set_cons_succ, List.map_cons, List.sum_cons]
      omega

variable {s : Store} {i : Nat} {t : Table} {f : Focus} {kind : String}
  {opened ended queued : Nat}

theorem total_eq_zero {measure : TableSize → Nat} (h : ∀ t ∈ s.tables, measure t.size = 0)
    (kind : String) : s.total kind measure = 0 := by
  rw [total_eq]
  generalize s.tables = tables at h
  induction tables with
  | nil => rfl
  | cons t tables ih =>
    rw [List.map_cons, List.sum_cons, ih fun t ht => h t (List.mem_cons_of_mem _ ht), Table.share,
      h t List.mem_cons_self, ite_self]

theorem total_absorb (ht : s.tables[i]? = some t) (f : Focus) (kind : String)
    (measure : TableSize → Nat) :
    (s.absorb i f).total kind measure + t.share kind measure =
      s.total kind measure + f.table.share kind measure := by
  rw [total_eq, total_eq]
  exact sum_map_set _ ht f.table

/-- The account of a store changes as that of the table does which an action is about. -/
theorem balances_absorb (ht : s.tables[i]? = some t)
    (h : ((s.focus t).account kind).Balances opened ended queued (f.account kind)) :
    (s.account kind).Balances opened ended queued ((s.absorb i f).account kind) where
  mutations := h.mutations
  objects := by
    have hobjects : f.counters.count (.mutations kind .create) +
        s.counters.count (.mutations kind .delete) + t.share kind (·.objects) =
        s.counters.count (.mutations kind .create) + f.counters.count (.mutations kind .delete) +
        f.table.share kind (·.objects) := h.objects
    have htotal := total_absorb ht f kind (·.objects)
    dsimp only [account, Account.read]
    rw [show (s.absorb i f).counters = f.counters from rfl]
    omega
  watches := by
    have hwatches : f.table.share kind (·.watchers) + f.counters.sum (Counter.isClosing kind) +
        ended = t.share kind (·.watchers) + s.counters.sum (Counter.isClosing kind) + opened :=
      h.watches
    have htotal := total_absorb ht f kind (·.watchers)
    dsimp only [account, Account.read]
    rw [show (s.absorb i f).counters = f.counters from rfl]
    omega
  events := h.events

end Store

/-! ## Calls -/

namespace Store.Work

/-- What a call does, told by how it is counted: nothing; or it enters commits under the verb of
their changes; or it opens a watch. -/
inductive Counted (i now : Nat) (f : Focus) : Except Error Reply × Focus → Prop
  | still {result : Except Error Reply} : (∀ h, result ≠ .ok (.watching h)) →
      Counted i now f (result, f)
  | mutated {verb : Verb} {log : List Commit} {reply : Reply} {f' : Focus} :
      (∀ h, reply ≠ .watching h) → Focus.Commits i now verb f log f' →
      (∀ c ∈ log, verb.Suits c.change) → Counted i now f (.ok reply, f')
  | opened {w : Watch} : w.id = f.table.nextWatch → w.isLive = true → w.queue = [] →
      Counted i now f (.ok (.watching ⟨f.table.definition.fullName, w.id⟩), f.enlist w)

variable {i : Nat} {scope : Scope} {m : Moment} {f f' : Focus}

theorem counted_put (verb : Verb) {result : Except Error Object}
    (h : (∃ e, result = .error e ∧ f' = f) ∨
      ∃ new c, result = .ok new ∧ verb.Suits c.change ∧ Focus.Commits i m.now verb f [c] f') :
    Counted i m.now f (result.map .object, f') := by
  rcases h with ⟨e, rfl, rfl⟩ | ⟨new, c, rfl, hsuits, hc⟩
  · exact .still nofun
  · refine .mutated nofun hc fun c' hc' => ?_
    rwa [List.mem_singleton.mp hc']

theorem counted_update {verb : Verb} (hverb : ∀ old new, verb.Suits (.updated old new))
    {result : Except Error Object}
    (h : (∃ e, result = .error e ∧ f' = f) ∨
      ∃ new key r, result = .ok new ∧ SortedMap.get? f.table.records key = some r ∧
        Focus.Commits i m.now verb f [⟨i, key, f.version.next, .updated r.object new⟩] f') :
    Counted i m.now f (result.map .object, f') := by
  refine counted_put verb (h.imp_right ?_)
  rintro ⟨new, key, r, hok, -, hc⟩
  exact ⟨new, _, hok, hverb _ _, hc⟩

theorem counted_watch (criteria : Criteria) (since : Option Version) (timeout : Option Nat) :
    Counted i m.now f (Store.serve scope m (.watch criteria since timeout) f) := by
  simp only [Store.serve]
  generalize hw : f.watch scope m criteria since timeout = p
  obtain ⟨result, f'⟩ := p
  rcases Focus.watch_spec hw with ⟨e, -, rfl, rfl⟩ | ⟨events, -, rfl, rfl⟩
  · exact .still (by simp [Except.map])
  · exact .opened (w := f.newWatch scope m criteria timeout events) rfl rfl rfl

/-- **Every call is counted in one of these ways.** -/
theorem serve_counted (i : Nat)
    (hf : ControlPlane.Filed f.table.definition f.table.records) (w : Work) :
    Counted i m.now f (w.serve scope m f) := by
  cases w with
  | writeBack o read subresource =>
    exact counted_update .patch (Focus.replace_spec i hf rfl)
  | request r =>
    cases r with
    | create o =>
      refine counted_put .create ((Focus.create_spec i rfl).imp_right ?_)
      rintro ⟨new, key, hok, -, hc⟩
      exact ⟨new, _, hok, .create _, hc⟩
    | get key =>
      refine .still fun h hok => ?_
      obtain ⟨o, -, ho⟩ := map_eq_ok_iff.mp hok
      cases ho
    | list criteria =>
      refine .still fun h hok => ?_
      obtain ⟨l, -, hl⟩ := map_eq_ok_iff.mp hok
      cases hl
    | watch criteria since timeout => exact counted_watch criteria since timeout
    | update o expected subresource =>
      simp only [serve, Store.serve]
      cases subresource.mapM f.table.definition.subresource with
      | error e => exact .still (by simp)
      | ok subresource => exact counted_update .update (Focus.replace_spec i hf rfl)
    | patch key subresource p =>
      simp only [serve, Store.serve]
      cases subresource.mapM f.table.definition.subresource with
      | error e => exact .still (by simp)
      | ok subresource => exact counted_update .patch (Focus.patch_spec i hf rfl)
    | delete key precondition =>
      refine counted_put .delete ((Focus.delete_spec i hf rfl).imp_right ?_)
      rintro ⟨tombstone, hok, hc⟩
      exact ⟨tombstone, _, hok, .delete _, hc⟩
    | deleteCollection criteria =>
      simp only [serve, Store.serve]
      generalize hd : f.deleteCollection scope m criteria = p
      obtain ⟨result, f'⟩ := p
      rcases Focus.deleteCollection_spec i hf hd with ⟨e, rfl, rfl⟩ | ⟨objects, log, rfl, hc, hmap⟩
      · exact .still (by simp [Except.map])
      · refine .mutated (by simp) hc fun c hmem => ?_
        have hchange : c.change ∈ objects.map Change.deleted := hmap ▸ List.mem_map_of_mem hmem
        obtain ⟨o, -, ho⟩ := List.mem_map.mp hchange
        exact ho ▸ .delete o

end Store.Work

/-! ## What happens to a store -/

namespace Store

/-- The name of the kind that a handle is about. -/
def kindName? (s : Store) (h : WatchHandle) : Option String :=
  ((s.position? h.kind).bind (s.tables[·]?)).map Table.name

/-- The watch that an outcome hands out. -/
def Outcome.opened? : Outcome → Option WatchHandle
  | .answer (.ok (.watching h)) => some h
  | _ => none

/-- How many watches an action opens on the tables of a name. -/
def opens (kind : String) (s : Store) (a : Action) : Nat :=
  if (s.act a).1.opened?.bind s.kindName? = some kind then 1 else 0

/-- The watch of a handle is there, on a table of a name, and live. -/
def registers (s : Store) (h : WatchHandle) (kind : String) : Bool :=
  s.kindName? h = some kind && (s.watch? h).any Watch.isLive

/-- How many watches on the tables of a name are ended by their consumers in an action: they are
stopped or dropped while they are live. -/
def endings (kind : String) (s : Store) : Action → Nat
  | .stopWatch h => if s.registers h kind then 1 else 0
  | .dropWatch h => if s.registers h kind then 1 else 0
  | _ => 0

/-- The events that came into the queues of the tables of a name between two states of a store. -/
def arrivals (kind : String) (s s' : Store) : List Event :=
  (s.tables.zip s'.tables).flatMap fun p => if p.1.name = kind then p.1.arrivals p.2 else []

/-- How many events an action puts in the queues of the tables of a name. -/
def placed (kind : String) (s : Store) (a : Action) : Nat :=
  (arrivals kind s (s.act a).2).length

/-- How often something happens in a run. -/
def tally (count : Store → Action → Nat) (s : Store) : List Action → Nat
  | [] => 0
  | a :: actions => count s a + tally count (s.act a).2 actions

/-- The watches of every table have different numbers. -/
def UniqueIds (s : Store) : Prop := ∀ t ∈ s.tables, t.UniqueIds

/-- What a step of a store does. -/
structure Accounts (kind : String) (s : Store) (opened ended : Nat) (s' : Store) : Prop where
  balances : (s.account kind).Balances opened ended (arrivals kind s s').length (s'.account kind)
  uniqueIds : s'.UniqueIds

theorem flatMap_zip_self {α β : Type} {g : α → α → List β} {l : List α}
    (hself : ∀ x ∈ l, g x x = []) : (l.zip l).flatMap (fun p => g p.1 p.2) = [] := by
  refine List.flatMap_eq_nil_iff.mpr fun p hp => ?_
  rw [List.zip_eq_zipWith, List.zipWith_self] at hp
  obtain ⟨x, hx, rfl⟩ := List.mem_map.mp hp
  exact hself x hx

/-- What is made of the pairs of two lists that differ in one place, if nothing is made of equals.
-/
theorem flatMap_zip_set {α β : Type} {g : α → α → List β} {l : List α}
    (hself : ∀ x ∈ l, g x x = []) {i : Nat} {x : α} (hx : l[i]? = some x) (y : α) :
    (l.zip (l.set i y)).flatMap (fun p => g p.1 p.2) = g x y := by
  induction l generalizing i with
  | nil => cases hx
  | cons z l ih =>
    have hrest : ∀ x ∈ l, g x x = [] := fun x hx => hself x (List.mem_cons_of_mem _ hx)
    cases i with
    | zero =>
      obtain rfl := Option.some.inj hx
      rw [List.set_cons_zero, List.zip_cons_cons, List.flatMap_cons, flatMap_zip_self hrest,
        List.append_nil]
    | succ i =>
      rw [List.set_cons_succ, List.zip_cons_cons, List.flatMap_cons, hself z List.mem_cons_self,
        List.nil_append]
      exact ih hrest hx

variable {s : Store} {i : Nat} {t : Table} {f' : Focus} {kind : String} {opened ended : Nat}

theorem arrivals_same (hs : s.UniqueIds) (ht : t ∈ s.tables) (kind : String) :
    (if t.name = kind then t.arrivals t else []) = [] := by
  rw [Table.arrivals_eq_nil fun w hw => Nat.le_of_eq (Table.queued_of_mem (hs t ht) hw).symm,
    ite_self]

theorem accounts_self (hs : s.UniqueIds) (kind : String) : Accounts kind s 0 0 s where
  balances := by
    rw [arrivals, flatMap_zip_self (g := fun t t' => if t.name = kind then t.arrivals t' else [])
      fun t ht => arrivals_same hs ht kind]
    exact .refl _
  uniqueIds := hs

/-- What an action does to a store is what it does to the table that it is about. -/
theorem accounts_absorb (hs : s.UniqueIds) (ht : s.tables[i]? = some t)
    (h : (s.focus t).Accounts kind opened ended f') :
    Accounts kind s opened ended (s.absorb i f') where
  balances := by
    have harrivals : (arrivals kind s (s.absorb i f')).length =
        if t.name = kind then (t.arrivals f'.table).length else 0 := by
      rw [arrivals, absorb,
        flatMap_zip_set (g := fun t t' => if t.name = kind then t.arrivals t' else [])
          (fun t ht => arrivals_same hs ht kind) ht]
      split <;> rfl
    rw [harrivals]
    exact balances_absorb ht h.balances
  uniqueIds := by
    intro t' ht'
    obtain ⟨j, hj⟩ := List.mem_iff_getElem?.mp ht'
    rcases tables_absorb ht hj with ⟨-, rfl⟩ | ⟨-, hj⟩
    · exact h.uniqueIds
    · exact hs t' (List.mem_of_getElem? hj)

theorem kindName?_eq {h : WatchHandle} (hi : s.position? h.kind = some i)
    (ht : s.tables[i]? = some t) : s.kindName? h = some t.name := by
  simp only [kindName?, hi, ht, Option.bind_some, Option.map_some]

theorem registers_eq {h : WatchHandle} (hi : s.position? h.kind = some i)
    (ht : s.tables[i]? = some t) (kind : String) :
    s.registers h kind = (decide (t.name = kind) && t.hasLive h.id) := by
  simp only [registers, kindName?_eq hi ht, watch?, hi, ht, Option.bind_some, Option.some_inj,
    Table.hasLive]

/-- No watch is registered under a handle that leads to no table. -/
theorem registers_eq_false {h : WatchHandle}
    (hnone : ∀ i t, s.position? h.kind = some i → s.tables[i]? ≠ some t) (kind : String) :
    s.registers h kind = false := by
  have hname : s.kindName? h = none := by
    unfold kindName?
    cases hi : s.position? h.kind with
    | none => rfl
    | some i =>
      cases ht : s.tables[i]? with
      | none => simp [ht]
      | some t => exact absurd ht (hnone i t hi)
  simp [registers, hname]

/-- A poll is accounted for. -/
theorem accounts_poll (hs : s.UniqueIds) (now : Nat) (h : WatchHandle) (kind : String) :
    Accounts kind s 0 0 (s.act (.poll now h)).2 := by
  have hact : (s.act (.poll now h)).2 = (s.onWatch h (·.poll now h.id)).2 := rfl
  rw [hact]
  rcases onWatch_cases s h (·.poll now h.id) with ⟨heq, -⟩ | ⟨i, t, -, ht, heq⟩
  · rw [heq]
    exact accounts_self hs kind
  · rw [heq]
    have hunique := hs t (List.mem_of_getElem? ht)
    exact accounts_absorb hs ht (Focus.accounts_poll hunique now h.id kind)

/-- What a consumer does to its watch is accounted for, if it ends the watch if it is live. -/
theorem accounts_consumer (hs : s.UniqueIds) (h : WatchHandle) {operation : Focus → Focus}
    (hstep : ∀ f : Focus, f.table.UniqueIds →
      f.Accounts kind 0 (if f.table.name = kind ∧ f.table.hasLive h.id then 1 else 0)
        (operation f)) :
    Accounts kind s 0 (if s.registers h kind then 1 else 0)
      (s.onWatch h fun f => ((), operation f)).2 := by
  rcases onWatch_cases s h fun f => ((), operation f) with ⟨heq, hnone⟩ | ⟨i, t, hi, ht, heq⟩
  · rw [heq, registers_eq_false hnone]
    exact accounts_self hs kind
  · have hended : Accounts kind s 0 (if t.name = kind ∧ t.hasLive h.id then 1 else 0)
        (s.absorb i (operation (s.focus t))) :=
      accounts_absorb hs ht (hstep (s.focus t) (hs t (List.mem_of_getElem? ht)))
    rw [heq, registers_eq hi ht]
    simpa only [Bool.and_eq_true, decide_eq_true_eq] using hended

theorem total_shutdown (s : Store) (kind : String) (measure : TableSize → Nat) :
    s.shutdown.total kind measure =
      s.total kind fun size => measure { size with watchers := 0 } := by
  rw [total_eq, total_eq, shutdown, List.map_map]
  refine congrArg List.sum (List.map_congr_left fun t _ => ?_)
  rw [Function.comp_apply, Table.share, Table.share, Table.size_stop]
  rfl

/-- The shutdown closes every watch that is live, and does nothing else. -/
theorem balances_shutdown (s : Store) (kind : String) :
    (s.account kind).Balances 0 0 0 (s.shutdown.account kind) where
  mutations := by
    have hread := (Counters.reads_sum Counter.isMutation).shutdown (a := fun _ => 0)
      (fun _ _ => rfl) s
    have hversion : s.shutdown.version = s.version := rfl
    simp [account, Account.read, hread, hversion]
  objects := by
    have hread (verb : Verb) := (Counters.reads_count (.mutations kind verb)).shutdown
      (a := fun _ => 0) (fun _ _ => by simp) s
    simp [account, Account.read, hread, total_shutdown]
  watches := by
    have hread := (Counters.reads_sum (Counter.isClosing kind)).shutdown
      (a := fun name => if name = kind then 1 else 0) (fun _ _ => by simp [Counter.isClosing]) s
    have hclosed : (s.tables.map fun t => (if t.name = kind then 1 else 0) * t.size.watchers).sum =
        s.total kind (·.watchers) := by
      rw [total_eq]
      refine congrArg List.sum (List.map_congr_left fun t _ => ?_)
      rw [Table.share]
      split
      · exact Nat.one_mul _
      · exact Nat.zero_mul _
    have hnone : s.total kind (fun _ => 0) = 0 := total_eq_zero (fun _ _ => rfl) kind
    simp only [account, Account.read, hread, hclosed, total_shutdown, hnone]
    omega
  events := by
    have hread := (Counters.reads_count (.delivered kind)).shutdown (a := fun _ => 0)
      (fun _ _ => by simp) s
    simp [account, Account.read, hread]

/-- The shutdown is accounted for. -/
theorem accounts_shutdown (hs : s.UniqueIds) (kind : String) :
    Accounts kind s 0 0 s.shutdown where
  balances := by
    have harrivals : arrivals kind s s.shutdown = [] := by
      refine List.flatMap_eq_nil_iff.mpr fun p hp => ?_
      rw [shutdown, List.zip_map_right, List.zip_eq_zipWith, List.zipWith_self] at hp
      obtain ⟨q, hq, rfl⟩ := List.mem_map.mp hp
      obtain ⟨t, ht, rfl⟩ := List.mem_map.mp hq
      have hqueues : ∀ w ∈ t.stop.watches, w.queue.length ≤ t.queued w.id := by
        intro w hw
        obtain ⟨w', hw', rfl⟩ := List.mem_map.mp hw
        simp only [Watch.close_queue, Watch.close_id, Table.queued_of_mem (hs t ht) hw',
          Nat.le_refl]
      simp only [Prod.map, id, Table.arrivals_eq_nil hqueues, ite_self]
    rw [harrivals]
    exact balances_shutdown s kind
  uniqueIds := by
    intro t ht
    obtain ⟨t', ht', rfl⟩ := List.mem_map.mp ht
    exact Table.uniqueIds_map (hs t' ht') (fun w => w.close_id _) rfl

theorem opened?_eq_none {result : Except Error Reply} (h : ∀ h, result ≠ .ok (.watching h)) :
    (Outcome.answer result).opened? = none := by
  cases result with
  | error e => rfl
  | ok reply =>
    cases reply with
    | watching w => exact absurd rfl (h w)
    | _ => rfl

/-- A call is accounted for. -/
theorem accounts_call {log : List Commit} (hfollows : s.Follows log) (hs : s.UniqueIds)
    (name : String) (scope : Scope) (m : Moment) (w : Work) (kind : String) :
    Accounts kind s (opens kind s (.call name scope m w)) 0 (s.act (.call name scope m w)).2 := by
  rcases onKind_cases s name (w.serve scope m) with ⟨e, h⟩ | ⟨i, t, hfind, ht, -⟩
  · simp only [opens, act, h]
    exact accounts_self hs kind
  · have hcounted : Work.Counted i m.now (s.focus t) (w.serve scope m (s.focus t)) :=
      Work.serve_counted i (hfollows.filed i t ht) w
    have hunique : (s.focus t).table.UniqueIds := hs t (List.mem_of_getElem? ht)
    rw [opens, act_call hfind ht]
    generalize w.serve scope m (s.focus t) = p at hcounted ⊢
    cases hcounted with
    | still hresult =>
      rw [opened?_eq_none hresult]
      exact accounts_absorb hs ht (Focus.accounts_self hunique kind)
    | mutated hreply hc hsuits =>
      rw [opened?_eq_none fun h heq => hreply h (Except.ok.inj heq)]
      exact accounts_absorb hs ht
        (hc.accounts hsuits (hfollows.tables i t ht).sorted hunique kind)
    | @opened v hid hlive hqueue =>
      have hname : s.kindName? ⟨t.definition.fullName, v.id⟩ = some t.name :=
        kindName?_eq (position_of_find hfind ht) ht
      have hopened : Accounts kind s (if t.name = kind then 1 else 0) 0
          (s.absorb i ((s.focus t).enlist v)) :=
        accounts_absorb hs ht
          (Focus.accounts_enlist hunique (hfollows.numbered i t ht) hid hlive hqueue kind)
      simpa only [Outcome.opened?, Option.bind_some, focus, hname, Option.some_inj] using hopened

/-- **Every action is accounted for.** -/
theorem accounts_act {log : List Commit} (hfollows : s.Follows log) (hs : s.UniqueIds)
    (a : Action) (kind : String) :
    Accounts kind s (opens kind s a) (endings kind s a) (s.act a).2 := by
  cases a with
  | call name scope m w => exact accounts_call hfollows hs name scope m w kind
  | poll now h => exact accounts_poll hs now h kind
  | stopWatch h => exact accounts_consumer hs h fun f hf => Focus.accounts_stopWatch hf h.id kind
  | dropWatch h => exact accounts_consumer hs h fun f hf => Focus.accounts_dropWatch hf h.id kind
  | shutdown => exact accounts_shutdown hs kind

/-- **Every run is accounted for.** -/
theorem balances_run {log : List Commit} (hfollows : s.Follows log) (hs : s.UniqueIds)
    (actions : List Action) (kind : String) :
    (s.account kind).Balances (s.tally (opens kind) actions) (s.tally (endings kind) actions)
      (s.tally (placed kind) actions) ((s.run actions).account kind) := by
  induction actions generalizing s log with
  | nil => exact .refl _
  | cons a actions ih =>
    have hact := accounts_act hfollows hs a kind
    exact hact.balances.trans (ih (hfollows.act a) hact.uniqueIds)

theorem uniqueIds_empty (catalog : Catalog) (limits : WatchLimits) :
    (empty catalog limits).UniqueIds := by
  intro t ht
  obtain ⟨d, -, rfl⟩ := List.mem_map.mp ht
  exact List.nodup_nil

theorem account_empty (catalog : Catalog) (limits : WatchLimits) (kind : String) :
    (empty catalog limits).account kind = ⟨0, 0, 0, 0, 0, 0, 0, 0⟩ := by
  have hobjects : (empty catalog limits).total kind (·.objects) = 0 := by
    refine total_eq_zero (fun t ht => ?_) kind
    obtain ⟨d, -, rfl⟩ := List.mem_map.mp ht
    rfl
  have hwatchers : (empty catalog limits).total kind (·.watchers) = 0 := by
    refine total_eq_zero (fun t ht => ?_) kind
    obtain ⟨d, -, rfl⟩ := List.mem_map.mp ht
    rfl
  simp only [account, Account.read, hobjects, hwatchers]
  rfl

/-- The counters of a store account for all that is there and all that happened in a run from the
empty store. -/
structure Accounted (s origin : Store) (actions : List Action) : Prop where
  /-- The mutations of all kinds are counted, one for each version. -/
  mutations : s.counters.sum Counter.isMutation = s.version
  /-- The objects of a kind are those that were created and not deleted. -/
  objects : ∀ kind, s.counters.count (.mutations kind .create) =
    s.counters.count (.mutations kind .delete) + s.total kind (·.objects)
  /-- The watches that were opened are live, were closed by the server, or were ended by their
  consumers. -/
  watches : ∀ kind, origin.tally (opens kind) actions =
    s.total kind (·.watchers) + s.counters.sum (Counter.isClosing kind) +
      origin.tally (endings kind) actions
  /-- The events that came into queues are counted. -/
  events : ∀ kind, s.counters.count (.delivered kind) = origin.tally (placed kind) actions

/-- **Every store that was empty is accounted for.** -/
theorem accounted_run (catalog : Catalog) (limits : WatchLimits) (actions : List Action) :
    ((empty catalog limits).run actions).Accounted (empty catalog limits) actions := by
  have hrun (kind : String) := balances_run (follows_empty catalog limits)
    (uniqueIds_empty catalog limits) actions kind
  simp only [account_empty] at hrun
  refine ⟨?_, fun kind => ?_, fun kind => ?_, fun kind => ?_⟩
  · simpa [account, Account.read] using (hrun "").mutations
  · simpa [account, Account.read] using (hrun kind).objects
  · simpa [account, Account.read] using (hrun kind).watches.symm
  · simpa [account, Account.read] using (hrun kind).events

end Store

/-- **Every state of every server is accounted for.** -/
theorem Server.accounted (catalog : Catalog) (limits : WatchLimits) (x : ViewScheme)
    (views : List (String × Option (List String))) (us : List Use) :
    ((start catalog limits x views).uses us).store.Accounted (Store.empty catalog limits)
      ((start catalog limits x views).actions us) := by
  rw [uses_start]
  exact Store.accounted_run catalog limits _

end ControlPlane
