import ControlPlane.Proofs.Discipline
import ControlPlane.Proofs.Faithful

/-!
# What reaches a watch

Of all that happens to a store, a watch gets the commits of its own table, the polls and the stop of
its own consumer, and the shutdown. What the store makes of a watch during a run is what these
inputs make of it.

* `Store.inputs`, `Store.feed`: what reaches a watch from an action, and from some.
* `Store.itemsOf`, `Store.items`: what the consumer of a watch gets.
* `Store.run_watch`: after a run, the watch is what its feed made of it, and so are its items.
* `Store.observed_feed`: the changes of a feed are the commits of the table.
-/

namespace ControlPlane

namespace Store

/-! ## Feeds -/

/-- What reaches a watch of the table at a position from an action. -/
def inputs (s : Store) (i : Nat) (h : WatchHandle) (a : Action) : List Watch.Input :=
  match a with
  | .call _ _ m _ => (ofTable i (s.commits a)).map fun c => .change m.now c.version c.change
  | .poll now h' => if h' = h then [.poll now] else []
  | .stopWatch h' => if h' = h then [.stop] else []
  | .dropWatch _ => []
  | .shutdown => [.shutdown]

/-- What reaches a watch of the table at a position from some actions. -/
def feed (s : Store) (i : Nat) (h : WatchHandle) : List Action → List Watch.Input
  | [] => []
  | a :: actions => s.inputs i h a ++ (s.act a).2.feed i h actions

/-- What the consumer of a watch gets from an action. -/
def itemsOf (s : Store) (h : WatchHandle) (a : Action) : List Watch.Item :=
  match a, (s.act a).1 with
  | .poll _ h', .item x => if h' = h then [x] else []
  | _, _ => []

/-- What the consumer of a watch gets from some actions. -/
def items (s : Store) (h : WatchHandle) : List Action → List Watch.Item
  | [] => []
  | a :: actions => s.itemsOf h a ++ (s.act a).2.items h actions

end Store

/-- A commit gives a consumer nothing by itself. -/
theorem Watch.items_commits (w : Watch) (d : Definition) (capacity now : Nat) (log : List Commit) :
    w.items d capacity (log.map fun c => .change now c.version c.change) = [] := by
  induction log generalizing w with
  | nil => rfl
  | cons c log ih => exact ih _

/-! ## Watches of a table -/

namespace Table

variable {t : Table} {id : Nat} {w : Watch}

theorem watch?_id (h : t.watch? id = some w) : w.id = id := by
  simpa using List.find?_some h

theorem watch?_map {t' : Table} {g : Watch → Watch} (hg : ∀ w, (g w).id = w.id)
    (hwatches : t'.watches = t.watches.map g) : t'.watch? id = (t.watch? id).map g := by
  rw [watch?, watch?, hwatches, List.find?_map]
  congr 2
  funext v
  simp only [Function.comp_apply, hg]

theorem watch?_setWatch_self (h : t.watch? id = some w) {next : Watch} (hnext : next.id = id) :
    (t.setWatch next).watch? id = some next := by
  have hmap : (t.setWatch next).watch? id =
      (t.watch? id).map fun v => if v.id = next.id then next else v :=
    watch?_map (fun v => by split <;> simp_all) rfl
  rw [hmap, h, Option.map_some, if_pos ((watch?_id h).trans hnext.symm)]

theorem watch?_setWatch_ne {next : Watch} (hnext : next.id ≠ id) :
    (t.setWatch next).watch? id = t.watch? id := by
  have hmap : (t.setWatch next).watch? id =
      (t.watch? id).map fun v => if v.id = next.id then next else v :=
    watch?_map (fun v => by split <;> simp_all) rfl
  rw [hmap]
  cases h : t.watch? id with
  | none => rfl
  | some v =>
    rw [Option.map_some, if_neg]
    exact fun hid => hnext (hid.symm.trans (watch?_id h))

end Table

namespace Focus

variable {f f' : Focus} {id : Nat} {w : Watch}

theorem watch?_enlist (h : f.table.watch? id = some w) (v : Watch) :
    (f.enlist v).table.watch? id = some w := by
  simp only [enlist, Table.watch?, List.find?_append] at h ⊢
  rw [h]
  rfl

/-- The watch that was opened is found under its number. -/
theorem watch?_enlist_self (hf : f.table.Numbered) {v : Watch} (hv : v.id = f.table.nextWatch) :
    (f.enlist v).table.watch? f.table.nextWatch = some v := by
  have hnone : f.table.watches.find? (·.id == f.table.nextWatch) = none := by
    refine List.find?_eq_none.mpr fun w hw heq => ?_
    exact Nat.ne_of_lt (hf w hw) (by simpa using heq)
  simp only [enlist, Table.watch?, List.find?_append, hnone, Option.none_or]
  simp [hv]

theorem watch?_dropWatch_ne {id' : Nat} (hid : id' ≠ id) :
    (f.dropWatch id').table.watch? id = f.table.watch? id := by
  simp only [dropWatch, Table.watch?, List.find?_filter]
  congr 1
  funext v
  by_cases hv : v.id = id
  · simp [hv, hid.symm]
  · simp [hv]

theorem watch?_poll_self (h : f.table.watch? id = some w) (now : Nat) :
    (f.poll now id).1 = (w.poll now).1 ∧
      (f.poll now id).2.table.watch? id = some (w.poll now).2 := by
  unfold poll
  rw [h]
  exact ⟨rfl, Table.watch?_setWatch_self h ((w.poll_id now).trans (Table.watch?_id h))⟩

theorem watch?_poll_ne {id' : Nat} (hid : id' ≠ id) (now : Nat) :
    (f.poll now id').2.table.watch? id = f.table.watch? id := by
  unfold poll
  cases h : f.table.watch? id' with
  | none => rfl
  | some v =>
    have hnext : (v.poll now).2.id ≠ id := by rwa [v.poll_id, Table.watch?_id h]
    exact Table.watch?_setWatch_ne hnext

theorem watch?_stopWatch_self (h : f.table.watch? id = some w) :
    (f.stopWatch id).table.watch? id = some (w.close none) := by
  unfold stopWatch
  rw [h]
  exact Table.watch?_setWatch_self h ((w.close_id none).trans (Table.watch?_id h))

theorem watch?_stopWatch_ne {id' : Nat} (hid : id' ≠ id) :
    (f.stopWatch id').table.watch? id = f.table.watch? id := by
  unfold stopWatch
  cases h : f.table.watch? id' with
  | none => rfl
  | some v =>
    have hnext : (v.close none).id ≠ id := by rwa [v.close_id, Table.watch?_id h]
    exact Table.watch?_setWatch_ne hnext

/-- What commits make of a watch of their table. -/
theorem Commits.watch?_eq {i now : Nat} {verb : Verb} {log : List Commit}
    (hc : Commits i now verb f log f') (h : f.table.watch? id = some w) :
    f'.table.watch? id = some (w.after f.table.definition f.limits.queueCapacity
      (log.map fun c => .change now c.version c.change)) := by
  induction hc generalizing w with
  | nil => exact h
  | @cons f f' c log htable hversion hfits hrest ih =>
    have hone : (f.enter now verb c).table.watch? id = some (w.receive f.table.definition
        f.limits.queueCapacity now f.version.next c.change).1 := by
      rw [Table.watch?_map (fun v => v.receive_id ..) (enter_watches ..), h]
      rfl
    rw [ih hone, List.map_cons, Watch.after, Watch.step, hversion]
    rfl

end Focus

/-! ## One action -/

namespace Store

variable {s : Store} {log : List Commit} {i : Nat} {h : WatchHandle} {t : Table} {w : Watch}

/-- A watch of the store, with the table at its position. -/
structure Watches (s : Store) (i : Nat) (h : WatchHandle) (t : Table) (w : Watch) : Prop where
  position_eq : s.position? h.kind = some i
  table_eq : s.tables[i]? = some t
  watch_eq : t.watch? h.id = some w

theorem Watches.watch?_eq (hw : s.Watches i h t w) : s.watch? h = some w := by
  simp only [watch?, hw.position_eq, hw.table_eq, hw.watch_eq, Option.bind_some]

theorem fullName_of_position {kind : String} (hi : s.position? kind = some i)
    (ht : s.tables[i]? = some t) : t.definition.fullName = kind := by
  obtain ⟨hlt, hkind, -⟩ := List.findIdx?_eq_some_iff_getElem.mp hi
  obtain ⟨-, rfl⟩ := List.getElem?_eq_some_iff.mp ht
  simpa using hkind

/-- An operation on the table of a watch, if there is one. -/
theorem onWatch_cases {α : Type} (s : Store) (h : WatchHandle) (operation : Focus → α × Focus) :
    (s.onWatch h operation = (none, s) ∧ ∀ i t, s.position? h.kind = some i →
      s.tables[i]? ≠ some t) ∨
    ∃ i t, s.position? h.kind = some i ∧ s.tables[i]? = some t ∧
      s.onWatch h operation =
        (some (operation (s.focus t)).1, s.absorb i (operation (s.focus t)).2) := by
  unfold onWatch
  cases hi : s.position? h.kind with
  | none => exact Or.inl ⟨rfl, nofun⟩
  | some i =>
    dsimp only
    cases ht : s.tables[i]? with
    | none =>
      refine Or.inl ⟨rfl, fun j t hj => ?_⟩
      obtain rfl := Option.some.inj hj
      rw [ht]
      nofun
    | some t => exact Or.inr ⟨i, t, rfl, ht, rfl⟩

/-- An operation on the table of a watch keeps another watch, if it keeps those of other numbers. -/
theorem Watches.onWatch_ne {α : Type} (hw : s.Watches i h t w) {h' : WatchHandle} (hne : h' ≠ h)
    {operation : Focus → α × Focus}
    (hkeep : ∀ f : Focus, h'.id ≠ h.id → (operation f).2.table.watch? h.id = f.table.watch? h.id) :
    ∃ t', (s.onWatch h' operation).2.tables[i]? = some t' ∧ t'.watch? h.id = some w := by
  rcases onWatch_cases s h' operation with ⟨heq, -⟩ | ⟨j, t', hj, ht', heq⟩
  · rw [heq]
    exact ⟨t, hw.table_eq, hw.watch_eq⟩
  · rw [heq]
    by_cases hji : j = i
    · subst hji
      obtain rfl := Option.some.inj (ht'.symm.trans hw.table_eq)
      -- Both handles lead to one table, so they name one kind, and differ in the number.
      have hid : h'.id ≠ h.id := by
        intro hid
        have hkind :=
          (fullName_of_position hj ht').symm.trans (fullName_of_position hw.position_eq ht')
        cases h
        cases h'
        exact hne (by simp_all)
      exact ⟨_, tables_absorb_self ht' _, (hkeep _ hid).trans hw.watch_eq⟩
    · refine ⟨t, ?_, hw.watch_eq⟩
      rw [tables_absorb_ne hji]
      exact hw.table_eq

/-- An operation on the table of a watch, from the watch. -/
theorem Watches.onWatch_self {α : Type} (hw : s.Watches i h t w) (operation : Focus → α × Focus) :
    s.onWatch h operation =
      (some (operation (s.focus t)).1, s.absorb i (operation (s.focus t)).2) := by
  unfold onWatch
  rw [hw.position_eq]
  dsimp only
  rw [hw.table_eq]

/-- The watch of a handle is, after an action, what its inputs made of it, and so are its items. -/
def Fed (s : Store) (i : Nat) (h : WatchHandle) (t : Table) (w : Watch) (s' : Store)
    (items : List Watch.Item) (inputs : List Watch.Input) : Prop :=
  (∃ t', s'.tables[i]? = some t' ∧
    t'.watch? h.id = some (w.after t.definition s.limits.queueCapacity inputs)) ∧
  items = w.items t.definition s.limits.queueCapacity inputs

theorem Called.fed {m : Moment} {log : List Commit} {result : Except Error Reply} {s' : Store}
    (hcalled : s.Called m log result s') (hw : s.Watches i h t w) :
    s.Fed i h t w s' [] ((ofTable i log).map fun c => .change m.now c.version c.change) := by
  cases hcalled with
  | still => exact ⟨⟨t, hw.table_eq, hw.watch_eq⟩, rfl⟩
  | @mutated j t' verb log reply f' ht' hc =>
    by_cases hji : j = i
    · subst hji
      obtain rfl := Option.some.inj (ht'.symm.trans hw.table_eq)
      rw [ofTable_eq_self hc.table_eq]
      exact ⟨⟨_, tables_absorb_self ht' _, hc.watch?_eq hw.watch_eq⟩, (w.items_commits ..).symm⟩
    · rw [ofTable_eq_nil hc.table_eq hji]
      refine ⟨⟨t, ?_, hw.watch_eq⟩, rfl⟩
      rw [tables_absorb_ne hji]
      exact hw.table_eq
  | @opened j t' v reply ht' hid =>
    by_cases hji : j = i
    · subst hji
      obtain rfl := Option.some.inj (ht'.symm.trans hw.table_eq)
      exact ⟨⟨_, tables_absorb_self ht' _, Focus.watch?_enlist hw.watch_eq v⟩, rfl⟩
    · refine ⟨⟨t, ?_, hw.watch_eq⟩, rfl⟩
      rw [tables_absorb_ne hji]
      exact hw.table_eq

/-- **What an action makes of a watch is what its inputs make of it.** -/
theorem Watches.fed (hs : s.Follows log) (hw : s.Watches i h t w) (a : Action)
    (ha : a ≠ .dropWatch h) :
    s.Fed i h t w (s.act a).2 (s.itemsOf h a) (s.inputs i h a) := by
  cases a with
  | call kind scope m work =>
    obtain ⟨result, -, hcalled⟩ := call_cases hs.filed kind scope m work
    exact hcalled.fed hw
  | poll now h' =>
    simp only [Fed, act, itemsOf, inputs, poll]
    by_cases hh : h' = h
    · subst hh
      have hpoll := Focus.watch?_poll_self (f := s.focus t) hw.watch_eq now
      rw [if_pos rfl, if_pos rfl, hw.onWatch_self]
      exact ⟨⟨_, tables_absorb_self hw.table_eq _, hpoll.2⟩, congrArg (fun x => [x]) hpoll.1⟩
    · rw [if_neg hh, if_neg hh]
      exact ⟨hw.onWatch_ne hh fun f hid => Focus.watch?_poll_ne hid now, rfl⟩
  | stopWatch h' =>
    simp only [Fed, act, itemsOf, inputs, stopWatch]
    by_cases hh : h' = h
    · subst hh
      rw [if_pos rfl, hw.onWatch_self]
      exact ⟨⟨_, tables_absorb_self hw.table_eq _,
        Focus.watch?_stopWatch_self (f := s.focus t) hw.watch_eq⟩, rfl⟩
    · rw [if_neg hh]
      exact ⟨hw.onWatch_ne hh fun f hid => Focus.watch?_stopWatch_ne hid, rfl⟩
  | dropWatch h' =>
    have hh : h' ≠ h := fun hh => ha (by rw [hh])
    exact ⟨hw.onWatch_ne hh fun f hid => Focus.watch?_dropWatch_ne hid, rfl⟩
  | shutdown =>
    refine ⟨⟨t.stop, ?_, ?_⟩, rfl⟩
    · simp only [act, shutdown, List.getElem?_map, hw.table_eq, Option.map_some]
    · rw [Table.watch?_map (fun v => v.close_id _) rfl, hw.watch_eq]
      rfl

/-! ## Runs -/

/-- **What a run makes of a watch is what its feed makes of it.** -/
theorem Watches.fed_run (hs : s.Follows log) (hw : s.Watches i h t w) (actions : List Action)
    (hkept : .dropWatch h ∉ actions) :
    s.Fed i h t w (s.run actions) (s.items h actions) (s.feed i h actions) := by
  induction actions generalizing s log t w with
  | nil => exact ⟨⟨t, hw.table_eq, hw.watch_eq⟩, rfl⟩
  | cons a actions ih =>
    rw [List.mem_cons, not_or] at hkept
    obtain ⟨ha, hactions⟩ := hkept
    obtain ⟨⟨t', ht', hw'⟩, hitems⟩ := hw.fed hs a fun h => ha h.symm
    have hkinds := sameKinds_act hs a
    have hwatches : (s.act a).2.Watches i h t' (w.after t.definition s.limits.queueCapacity
        (s.inputs i h a)) :=
      ⟨(hkinds.position?_eq _).trans hw.position_eq, ht', hw'⟩
    obtain ⟨hafter, hrest⟩ := ih (hs.act a) hwatches hactions
    rw [hkinds.definition_eq hw.table_eq ht', hkinds.limits_eq] at hafter hrest
    refine ⟨?_, ?_⟩
    · rw [feed, Watch.after_append]
      exact hafter
    · rw [items, feed, Watch.items_append, hitems, hrest]

/-- What a watcher sees of its feed is what it sees of the commits of the table. -/
theorem observed_feed (s : Store) (x : Selection) (d : Definition) (i : Nat) (h : WatchHandle)
    (actions : List Action) :
    Watch.observed x d (s.feed i h actions) = seen x d (ofTable i (s.log actions)) := by
  induction actions generalizing s with
  | nil => rfl
  | cons a actions ih =>
    have hinputs : Watch.observed x d (s.inputs i h a) = seen x d (ofTable i (s.commits a)) := by
      cases a with
      | call kind scope m work =>
        rw [inputs, Watch.observed, List.filterMap_map]
        rfl
      | poll now h' =>
        rw [inputs]
        split <;> rfl
      | stopWatch h' =>
        rw [inputs]
        split <;> rfl
      | dropWatch h' => rfl
      | shutdown => rfl
    rw [feed, Store.log, Watch.observed_append, hinputs, ih, ofTable_append, seen_append]

end Store

end ControlPlane
