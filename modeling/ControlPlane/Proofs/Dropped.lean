import ControlPlane.Proofs.Opening

/-!
# Watches that were dropped

A table gives each number to one watch only, so a watch that was dropped stays dropped: whatever
happens later, no other watch is found under its number, and who asks for its items is told that it
is over. What a watch yields in a run it has therefore yielded before it was dropped.

* `Table.Vacant`: the number was given to a watch that is not there any more.
* `Store.Dropped.act`: no action brings back a watch that was dropped.
* `Store.Watches.yielded_kept`: what a watch yields, it yields before it is dropped.
-/

namespace ControlPlane

/-- The number was given to a watch that is not there any more. -/
structure Table.Vacant (t : Table) (id : Nat) : Prop where
  spent : id < t.nextWatch
  gone : t.watch? id = none

theorem Table.Vacant.map {t t' : Table} {id : Nat} (h : t.Vacant id) (g : Watch → Watch)
    (hg : ∀ w, (g w).id = w.id) (hwatches : t'.watches = t.watches.map g)
    (hnext : t'.nextWatch = t.nextWatch) : t'.Vacant id where
  spent := hnext ▸ h.spent
  gone := by rw [watch?_map hg hwatches, h.gone, Option.map_none]

namespace Focus

variable {f f' : Focus} {id : Nat}

theorem Commits.vacant {i now : Nat} {verb : Verb} {log : List Commit}
    (hc : Commits i now verb f log f') (h : f.table.Vacant id) : f'.table.Vacant id := by
  induction hc with
  | nil => exact h
  | cons _ _ _ _ ih => exact ih (h.map _ (fun w => w.receive_id ..) (enter_watches ..) rfl)

/-- A new watch has a number that no watch had. -/
theorem vacant_enlist (h : f.table.Vacant id) {w : Watch} (hid : w.id = f.table.nextWatch) :
    (f.enlist w).table.Vacant id where
  spent := Nat.lt_succ_of_lt h.spent
  gone := by
    have hne : w.id ≠ id := hid ▸ Nat.ne_of_gt h.spent
    have hgone : f.table.watches.find? (·.id == id) = none := h.gone
    simp [enlist, Table.watch?, List.find?_append, hgone, hne]

theorem vacant_settle (h : f.table.Vacant id) {before after : Watch}
    (hid : after.id = before.id) : (f.settle before after).table.Vacant id :=
  h.map _ (fun w => by split <;> simp_all) rfl rfl

theorem vacant_poll (h : f.table.Vacant id) (now id' : Nat) :
    (f.poll now id').2.table.Vacant id := by
  unfold poll
  cases f.table.watch? id' with
  | none => exact h
  | some w => exact vacant_settle h (w.poll_id now)

theorem vacant_stopWatch (h : f.table.Vacant id) (id' : Nat) :
    (f.stopWatch id').table.Vacant id := by
  unfold stopWatch
  cases f.table.watch? id' with
  | none => exact h
  | some w => exact vacant_settle h (w.close_id none)

theorem vacant_dropWatch (h : f.table.Vacant id) (id' : Nat) :
    (f.dropWatch id').table.Vacant id where
  spent := h.spent
  gone := by
    have hgone := List.find?_eq_none.mp h.gone
    exact List.find?_eq_none.mpr fun w hw => hgone w (List.mem_filter.mp hw).1

/-- A watch that is dropped leaves its number vacant. -/
theorem vacant_dropWatch_self (hf : f.table.Numbered) {w : Watch}
    (h : f.table.watch? id = some w) : (f.dropWatch id).table.Vacant id where
  spent := Table.watch?_id h ▸ hf w (List.mem_of_find?_eq_some h)
  gone := List.find?_eq_none.mpr fun w hw heq => by
    have hne := (List.mem_filter.mp hw).2
    simp_all

theorem poll_vacant (h : f.table.Vacant id) (now : Nat) : (f.poll now id).1 = .over := by
  unfold poll
  rw [h.gone]

end Focus

namespace Store

variable {s : Store} {log : List Commit} {i : Nat} {h : WatchHandle} {t : Table} {w : Watch}

/-! ## One action -/

/-- The watch of the handle was dropped. -/
structure Dropped (s : Store) (i : Nat) (h : WatchHandle) (t : Table) : Prop where
  position_eq : s.position? h.kind = some i
  table_eq : s.tables[i]? = some t
  vacant : t.Vacant h.id

/-- What keeps the number vacant in a table keeps the watch dropped. -/
theorem Dropped.absorb (hd : s.Dropped i h t) {j : Nat} {t₁ : Table} {f : Focus}
    (ht : s.tables[j]? = some t₁) (hf : t₁.Vacant h.id → f.table.Vacant h.id) :
    ∃ t', (s.absorb j f).tables[i]? = some t' ∧ t'.Vacant h.id := by
  by_cases hji : j = i
  · subst hji
    obtain rfl := Option.some.inj (ht.symm.trans hd.table_eq)
    exact ⟨_, tables_absorb_self ht _, hf hd.vacant⟩
  · refine ⟨t, ?_, hd.vacant⟩
    rw [tables_absorb_ne hji]
    exact hd.table_eq

theorem Dropped.onWatch {α : Type} (hd : s.Dropped i h t) (h' : WatchHandle)
    {operation : Focus → α × Focus}
    (hkeep : ∀ f : Focus, f.table.Vacant h.id → (operation f).2.table.Vacant h.id) :
    ∃ t', (s.onWatch h' operation).2.tables[i]? = some t' ∧ t'.Vacant h.id := by
  rcases onWatch_cases s h' operation with ⟨heq, -⟩ | ⟨j, t', -, ht', heq⟩
  · rw [heq]
    exact ⟨t, hd.table_eq, hd.vacant⟩
  · rw [heq]
    exact hd.absorb ht' fun hv => hkeep _ hv

theorem Called.dropped {m : Moment} {log : List Commit} {result : Except Error Reply} {s' : Store}
    (hcalled : s.Called m log result s') (hd : s.Dropped i h t) :
    ∃ t', s'.tables[i]? = some t' ∧ t'.Vacant h.id := by
  cases hcalled with
  | still => exact ⟨t, hd.table_eq, hd.vacant⟩
  | mutated ht hc => exact hd.absorb ht fun hv => hc.vacant hv
  | opened ht hid =>
    exact hd.absorb ht fun hv => Focus.vacant_enlist (f := s.focus _) hv hid

/-- **No action brings back a watch that was dropped.** -/
theorem Dropped.act (hs : s.Follows log) (hd : s.Dropped i h t) (a : Action) :
    ∃ t', (s.act a).2.Dropped i h t' := by
  suffices hkept : ∃ t', (s.act a).2.tables[i]? = some t' ∧ t'.Vacant h.id by
    obtain ⟨t', ht', hvacant⟩ := hkept
    exact ⟨t', ((sameKinds_act hs a).position?_eq _).trans hd.position_eq, ht', hvacant⟩
  cases a with
  | call kind scope m work =>
    obtain ⟨result, -, hcalled⟩ := call_cases hs.filed kind scope m work
    exact hcalled.dropped hd
  | poll now h' => exact hd.onWatch h' fun f hf => Focus.vacant_poll hf now h'.id
  | stopWatch h' => exact hd.onWatch h' fun f hf => Focus.vacant_stopWatch hf h'.id
  | dropWatch h' => exact hd.onWatch h' fun f hf => Focus.vacant_dropWatch hf h'.id
  | shutdown =>
    refine ⟨t.stop, ?_, hd.vacant.map _ (fun w => w.close_id _) rfl rfl⟩
    simp only [Store.act, shutdown, List.getElem?_map, hd.table_eq, Option.map_some]

/-- Who asks for the items of a watch that was dropped is told that it is over. -/
theorem Dropped.poll (hd : s.Dropped i h t) (now : Nat) : (s.poll now h).1 = .over := by
  rcases onWatch_cases s h (·.poll now h.id) with ⟨-, hnone⟩ | ⟨j, t', hj, ht', heq⟩
  · exact absurd hd.table_eq (hnone i t hd.position_eq)
  · obtain rfl := Option.some.inj (hj.symm.trans hd.position_eq)
    obtain rfl := Option.some.inj (ht'.symm.trans hd.table_eq)
    simp only [Store.poll, heq]
    exact Focus.poll_vacant (f := s.focus t') hd.vacant now

theorem Watches.dropWatch (hs : s.Follows log) (hw : s.Watches i h t w) :
    ∃ t', (s.act (.dropWatch h)).2.Dropped i h t' := by
  refine ⟨_, ((sameKinds_act hs _).position?_eq _).trans hw.position_eq, ?_,
    Focus.vacant_dropWatch_self (f := s.focus t) (hs.numbered i t hw.table_eq) hw.watch_eq⟩
  simp only [Store.act, Store.dropWatch, hw.onWatch_self]
  exact tables_absorb_self hw.table_eq _

/-! ## Runs -/

theorem items_append (s : Store) (h : WatchHandle) (before after : List Action) :
    s.items h (before ++ after) = s.items h before ++ (s.run before).items h after := by
  induction before generalizing s with
  | nil => rfl
  | cons a before ih => rw [List.cons_append, items, items, run_cons, ih, List.append_assoc]

theorem itemsOf_poll (s : Store) (h h' : WatchHandle) (now : Nat) :
    s.itemsOf h (.poll now h') = if h' = h then [(s.poll now h').1] else [] := rfl

theorem Dropped.yielded_eq (hs : s.Follows log) (hd : s.Dropped i h t) (actions : List Action) :
    Watch.yielded (s.items h actions) = [] := by
  induction actions generalizing s log t with
  | nil => rfl
  | cons a actions ih =>
    obtain ⟨t', hd'⟩ := hd.act hs a
    rw [items, Watch.yielded_append, ih (hs.act a) hd', List.append_nil]
    cases a with
    | poll now h' =>
      rw [itemsOf_poll]
      split
      · next hh =>
        rw [hh, hd.poll now]
        rfl
      · rfl
    | _ => rfl

theorem Dropped.run (hs : s.Follows log) (hd : s.Dropped i h t) (actions : List Action) :
    ∃ t', (s.run actions).Dropped i h t' := by
  induction actions generalizing s log t with
  | nil => exact ⟨t, hd⟩
  | cons a actions ih =>
    obtain ⟨t', hd'⟩ := hd.act hs a
    exact ih (hs.act a) hd'

/-- A watch that is not dropped is what its feed made of it. -/
theorem Watches.run_kept (hs : s.Follows log) (hw : s.Watches i h t w) {actions : List Action}
    (hkept : .dropWatch h ∉ actions) :
    ∃ t', (s.run actions).Watches i h t'
      (w.after t.definition s.limits.queueCapacity (s.feed i h actions)) := by
  obtain ⟨⟨t', ht', hw'⟩, -⟩ := hw.fed_run hs actions hkept
  exact ⟨t', ((sameKinds_run hs actions).position?_eq _).trans hw.position_eq, ht', hw'⟩

/-- **After a run, a watch was dropped or is what some inputs made of it.** -/
theorem Watches.run (hs : s.Follows log) (hw : s.Watches i h t w) (actions : List Action) :
    (∃ t', (s.run actions).Dropped i h t') ∨
    ∃ t' inputs, (s.run actions).Watches i h t'
      (w.after t.definition s.limits.queueCapacity inputs) := by
  by_cases hdrop : .dropWatch h ∈ actions
  · obtain ⟨kept, rest, rfl, hkept⟩ := List.eq_append_cons_of_mem hdrop
    obtain ⟨t', hwatches⟩ := hw.run_kept hs hkept
    obtain ⟨t'', hd⟩ := hwatches.dropWatch (follows_run hs kept)
    rw [run_append, run_cons]
    exact Or.inl (hd.run ((follows_run hs kept).act _) rest)
  · obtain ⟨t', hwatches⟩ := hw.run_kept hs hdrop
    exact Or.inr ⟨t', _, hwatches⟩

/-- **What a watch yields, it yields before it is dropped.** -/
theorem Watches.yielded_kept (hs : s.Follows log) (hw : s.Watches i h t w)
    (actions : List Action) :
    ∃ kept, kept <+: actions ∧ .dropWatch h ∉ kept ∧
      Watch.yielded (s.items h actions) = Watch.yielded (s.items h kept) := by
  by_cases hdrop : .dropWatch h ∈ actions
  · obtain ⟨kept, rest, rfl, hkept⟩ := List.eq_append_cons_of_mem hdrop
    refine ⟨kept, List.prefix_append .., hkept, ?_⟩
    obtain ⟨t', hwatches⟩ := hw.run_kept hs hkept
    obtain ⟨t'', hd⟩ := hwatches.dropWatch (follows_run hs kept)
    have hrest := hd.yielded_eq ((follows_run hs kept).act _) rest
    rw [items_append, Watch.yielded_append, items, Watch.yielded_append, hrest]
    exact List.append_nil _
  · exact ⟨actions, List.prefix_rfl, hdrop, rfl⟩

end Store

end ControlPlane
