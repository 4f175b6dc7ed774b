import ControlPlane.Proofs.Feed

/-!
# What holds of every watch

Four things can happen to the watches of a store: one is closed, one receives a change, one gives
an item to its consumer, and one is opened. Whatever these keep holds of every watch after every
run, so an invariant of watches is proved for a single watch.

* `Watch.Stable`: what is kept by everything that happens to an open watch.
* `Store.EachWatch.act`: it is kept by every action, if the watches that are opened have it.
* `Store.unfinished_run`: a watch that is live has not been seen to end.
-/

namespace ControlPlane

/-- A property of the watches of a kind, whose queues have a capacity, that everything keeps which
happens to a watch, if the changes it receives are fit. -/
structure Watch.Stable (d : Definition) (capacity : Nat) (P : Watch → Prop) (Fit : Change → Prop) :
    Prop where
  close : ∀ (w : Watch) (reason : Option EndReason), P w → P (w.close reason)
  receive : ∀ (w : Watch) (now : Nat) (version : Version) (c : Change), Fit c → P w →
    P (w.receive d capacity now version c).1
  take : ∀ w : Watch, P w → P w.take.2

namespace Watch.Stable

variable {d : Definition} {capacity : Nat} {P : Watch → Prop} {Fit : Change → Prop}

theorem poll (h : Stable d capacity P Fit) {w : Watch} (hw : P w) (now : Nat) :
    P (w.poll now).2 := by
  rw [Watch.poll]
  apply h.take
  unfold Watch.expire
  split
  · exact hw
  · exact h.close w _ hw

end Watch.Stable

namespace Watch

@[simp] theorem close_selection (w : Watch) (reason : Option EndReason) :
    (w.close reason).selection = w.selection := by
  unfold close
  split <;> rfl

@[simp] theorem close_held (w : Watch) (reason : Option EndReason) :
    (w.close reason).held = w.held := by
  unfold close
  split <;> rfl

theorem receive_selection (w : Watch) (d : Definition) (capacity now : Nat) (version : Version)
    (c : Change) : (w.receive d capacity now version c).1.selection = w.selection := by
  cases hphase : w.phase with
  | ended reason => rw [receive_ended hphase]
  | live =>
    rw [receive_live hphase]
    split
    · exact w.close_selection _
    · split
      · rfl
      · split
        · rfl
        · exact w.close_selection _

/-- A broadcast leaves what a watch holds, or adds the event by which the watch sees the change. -/
theorem receive_held (w : Watch) (d : Definition) (capacity now : Nat) (version : Version)
    (c : Change) :
    (w.receive d capacity now version c).1.held = w.held ∨
      ∃ e, w.selection.event? d version c = some e ∧
        (w.receive d capacity now version c).1.held = w.held ++ [e] := by
  cases hphase : w.phase with
  | ended reason =>
    rw [receive_ended hphase]
    exact Or.inl rfl
  | live =>
    rw [receive_live hphase]
    split
    · exact Or.inl (w.close_held _)
    · split
      · exact Or.inl rfl
      · next e he =>
        split
        · exact Or.inr ⟨e, he, (List.append_assoc ..).symm⟩
        · exact Or.inl (w.close_held _)

/-- Taking an item leaves the selection, and takes at most the first event that is held. -/
theorem take_keeps (w : Watch) : w.take.2.selection = w.selection ∧ w.take.2.held <:+ w.held := by
  cases hfinished : w.finished with
  | true =>
    rw [take_finished hfinished]
    exact ⟨rfl, List.suffix_rfl⟩
  | false =>
    cases hheld : w.held with
    | cons e events =>
      obtain ⟨-, hrest, -, -, hselection⟩ := take_held hfinished hheld
      rw [hrest]
      exact ⟨hselection, List.suffix_cons e events⟩
    | nil =>
      obtain ⟨hinitial, hqueue⟩ := initial_eq_nil hheld
      cases hphase : w.phase with
      | live =>
        rw [take_pending hfinished hinitial hqueue hphase, hheld]
        exact ⟨rfl, List.suffix_rfl⟩
      | ended reason =>
        rw [take_terminal hfinished hinitial hqueue hphase]
        exact ⟨rfl, hheld ▸ List.suffix_rfl⟩

/-- **Whatever happens to a watch, it selects what it selected.** -/
theorem after_selection (w : Watch) (d : Definition) (capacity : Nat) (inputs : List Input) :
    (w.after d capacity inputs).selection = w.selection := by
  induction inputs generalizing w with
  | nil => rfl
  | cons input inputs ih =>
    rw [after, ih]
    cases input with
    | change now version c => exact w.receive_selection d capacity now version c
    | poll now =>
      have hexpire : (w.expire now).selection = w.selection := by
        unfold expire
        split
        · rfl
        · exact w.close_selection _
      exact (w.expire now).take_keeps.1.trans hexpire
    | stop => exact w.close_selection none
    | shutdown => exact w.close_selection _

/-- The consumer of the watch has not seen its end, as long as it is live. -/
def Unfinished (w : Watch) : Prop := w.phase = .live → w.finished = false

theorem close_phase (w : Watch) (reason : Option EndReason) : (w.close reason).phase ≠ .live := by
  cases hphase : w.phase with
  | live =>
    rw [close_live hphase]
    nofun
  | ended r =>
    rw [close_ended hphase, hphase]
    nofun

theorem stable_unfinished (d : Definition) (capacity : Nat) :
    Stable d capacity Unfinished fun _ => True where
  close w reason _ hlive := absurd hlive (w.close_phase reason)
  receive w now version c _ hw := by
    cases hphase : w.phase with
    | ended reason =>
      rw [receive_ended hphase]
      exact hw
    | live =>
      rw [receive_live hphase]
      split
      · exact fun hlive => absurd hlive (w.close_phase _)
      · split
        · exact hw
        · split
          · exact hw
          · exact fun hlive => absurd hlive (w.close_phase _)
  take w hw := by
    cases hfinished : w.finished with
    | true =>
      rw [take_finished hfinished]
      exact hw
    | false =>
      cases hheld : w.held with
      | cons e events =>
        obtain ⟨-, -, hunfinished, -, -⟩ := take_held hfinished hheld
        exact fun _ => hunfinished
      | nil =>
        obtain ⟨hinitial, hqueue⟩ := initial_eq_nil hheld
        cases hphase : w.phase with
        | live =>
          rw [take_pending hfinished hinitial hqueue hphase]
          exact hw
        | ended reason =>
          rw [take_terminal hfinished hinitial hqueue hphase]
          intro hlive
          cases hphase.symm.trans hlive

end Watch

/-! ## Tables -/

/-- Every watch of the table has the property. -/
def Table.EachWatch (P : Watch → Prop) (t : Table) : Prop := ∀ w ∈ t.watches, P w

theorem Table.EachWatch.map {P : Watch → Prop} {t t' : Table} (h : t.EachWatch P)
    {g : Watch → Watch} (hwatches : t'.watches = t.watches.map g) (hg : ∀ w, P w → P (g w)) :
    t'.EachWatch P := by
  intro w hw
  rw [hwatches] at hw
  obtain ⟨w', hw', rfl⟩ := List.mem_map.mp hw
  exact hg w' (h w' hw')

namespace Focus

variable {P : Watch → Prop} {Fit : Change → Prop} {f f' : Focus}

theorem Commits.eachWatch {i now : Nat} {verb : Verb} {log : List Commit}
    (hc : Commits i now verb f log f')
    (hstable : Watch.Stable f.table.definition f.limits.queueCapacity P Fit)
    (hfit : ∀ c ∈ log, Fit c.change) (hf : f.table.EachWatch P) : f'.table.EachWatch P := by
  induction hc with
  | nil => exact hf
  | cons _ _ _ _ ih =>
    apply ih hstable
    · intro c hc
      exact hfit c (List.mem_cons_of_mem _ hc)
    · apply hf.map (enter_watches ..)
      intro w hw
      exact hstable.receive w _ _ _ (hfit _ List.mem_cons_self) hw

theorem eachWatch_settle (hf : f.table.EachWatch P) (before : Watch) {after : Watch}
    (hafter : P after) : (f.settle before after).table.EachWatch P := by
  apply hf.map rfl
  intro w hw
  split
  · exact hafter
  · exact hw

theorem eachWatch_poll {capacity : Nat} (hstable : Watch.Stable f.table.definition capacity P Fit)
    (hf : f.table.EachWatch P) (now id : Nat) : (f.poll now id).2.table.EachWatch P := by
  unfold poll
  cases hw : f.table.watch? id with
  | none => exact hf
  | some w => exact eachWatch_settle hf w (hstable.poll (hf w (List.mem_of_find?_eq_some hw)) now)

theorem eachWatch_stopWatch {capacity : Nat}
    (hstable : Watch.Stable f.table.definition capacity P Fit) (hf : f.table.EachWatch P)
    (id : Nat) : (f.stopWatch id).table.EachWatch P := by
  unfold stopWatch
  cases hw : f.table.watch? id with
  | none => exact hf
  | some w =>
    exact eachWatch_settle hf w (hstable.close w none (hf w (List.mem_of_find?_eq_some hw)))

theorem eachWatch_dropWatch (hf : f.table.EachWatch P) (id : Nat) :
    (f.dropWatch id).table.EachWatch P := by
  intro w hw
  exact hf w (List.mem_filter.mp hw).1

theorem eachWatch_enlist (hf : f.table.EachWatch P) {w : Watch} (hw : P w) :
    (f.enlist w).table.EachWatch P := by
  intro w' hw'
  rcases List.mem_append.mp hw' with hw' | hw'
  · exact hf w' hw'
  · obtain rfl := List.mem_singleton.mp hw'
    exact hw

end Focus

/-! ## Stores -/

theorem Commit.table_of_mem_number {i : Nat} {d : Definition} {v : Version} {changes : List Change}
    {c : Commit} (h : c ∈ number i d v changes) : c.table = i := by
  induction changes generalizing v with
  | nil => cases h
  | cons change changes ih =>
    rcases List.mem_cons.mp h with rfl | h
    · rfl
    · exact ih h

namespace Store

variable {P : Definition → Watch → Prop} {Fit : Definition → Change → Prop} {s : Store}
  {log : List Commit}

/-- Every watch of every table has the property that belongs to its kind. -/
def EachWatch (P : Definition → Watch → Prop) (s : Store) : Prop :=
  ∀ (i : Nat) (t : Table), s.tables[i]? = some t → t.EachWatch (P t.definition)

theorem eachWatch_empty (P : Definition → Watch → Prop) (catalog : Catalog) (limits : WatchLimits) :
    (empty catalog limits).EachWatch P := by
  intro i t ht w hw
  rw [empty, List.getElem?_map] at ht
  obtain ⟨d, -, rfl⟩ := Option.map_eq_some_iff.mp ht
  cases hw

/-- Every commit of the log is fit for the kind of its table. -/
def Fits (Fit : Definition → Change → Prop) (s : Store) (log : List Commit) : Prop :=
  ∀ c ∈ log, ∀ t, s.tables[c.table]? = some t → Fit t.definition c.change

/-- Every watch that a table would open now has the property. -/
def Opens (P : Definition → Watch → Prop) (s : Store) : Prop :=
  ∀ (i : Nat) (t : Table) (scope : Scope) (m : Moment) (criteria : Criteria)
    (since : Option Version) (timeout : Option Nat) (events : List Event),
    s.tables[i]? = some t → t.opening ⟨criteria, scope⟩ since = .ok events →
    P t.definition ((s.focus t).newWatch scope m criteria timeout events)

theorem EachWatch.absorb (hs : s.EachWatch P) {i : Nat} {t : Table}
    (ht : s.tables[i]? = some t) {f : Focus} (hf : f.table.EachWatch (P f.table.definition)) :
    (s.absorb i f).EachWatch P := by
  intro j t' ht'
  rcases tables_absorb ht ht' with ⟨rfl, rfl⟩ | ⟨-, ht'⟩
  · exact hf
  · exact hs j t' ht'

theorem EachWatch.onWatch {α : Type} (hs : s.EachWatch P) (h : WatchHandle)
    {operation : Focus → α × Focus}
    (hdefinition : ∀ f : Focus, (operation f).2.table.definition = f.table.definition)
    (hkeep : ∀ f : Focus, f.table.EachWatch (P f.table.definition) →
      (operation f).2.table.EachWatch (P f.table.definition)) :
    (s.onWatch h operation).2.EachWatch P := by
  rcases onWatch_cases s h operation with ⟨heq, -⟩ | ⟨i, t, -, ht, heq⟩
  · rw [heq]
    exact hs
  · rw [heq]
    apply hs.absorb ht
    rw [hdefinition]
    exact hkeep (s.focus t) (hs i t ht)

/-- A call leaves the table the one of its kind. -/
theorem Work.serve_definition {f : Focus}
    (hfiled : ControlPlane.Filed f.table.definition f.table.records) (scope : Scope) (m : Moment)
    (w : Work) : (w.serve scope m f).2.table.definition = f.table.definition := by
  have hserved : Served 0 scope m f w (w.serve scope m f) := serve_spec 0 hfiled w
  generalize w.serve scope m f = p at hserved ⊢
  cases hserved with
  | still _ => rfl
  | mutated hc => exact hc.definition_eq
  | opened _ => rfl

/-- A call keeps a stable property of the watches of its table, if its commits are fit and the watch
that it may open has the property. -/
theorem Work.eachWatch {i : Nat} {f : Focus} {P : Watch → Prop} {Fit : Change → Prop}
    (hfiled : ControlPlane.Filed f.table.definition f.table.records)
    (hstable : Watch.Stable f.table.definition f.limits.queueCapacity P Fit)
    (hf : f.table.EachWatch P) {scope : Scope} {m : Moment} {w : Work}
    (hfit : ∀ reply, (w.serve scope m f).1 = .ok reply →
      ∀ c ∈ Commit.number i f.table.definition f.version (w.changes f.table reply), Fit c.change)
    (hopen : ∀ criteria since timeout events, f.table.opening ⟨criteria, scope⟩ since = .ok events →
      P (f.newWatch scope m criteria timeout events)) :
    (w.serve scope m f).2.table.EachWatch P := by
  have hserved : Served i scope m f w (w.serve scope m f) := serve_spec i hfiled w
  generalize w.serve scope m f = p at hserved hfit ⊢
  cases hserved with
  | still _ => exact hf
  | @mutated _ reply verb f' hc => exact hc.eachWatch hstable (hfit reply rfl) hf
  | @opened criteria since timeout events ho =>
    exact Focus.eachWatch_enlist hf (hopen criteria since timeout events ho)

theorem EachWatch.call (hfollows : s.Follows log)
    (hstable : ∀ d, Watch.Stable d s.limits.queueCapacity (P d) (Fit d)) (hs : s.EachWatch P)
    (hopens : s.Opens P) {kind : String} {scope : Scope} {m : Moment} {w : Work}
    (hfits : s.Fits Fit (s.commits (.call kind scope m w))) :
    (s.act (.call kind scope m w)).2.EachWatch P := by
  rcases onKind_cases s kind (w.serve scope m) with ⟨e, hkind⟩ | ⟨i, t, hfind, ht, hkind⟩
  · rw [show (s.act (.call kind scope m w)).2 = s from congrArg Prod.snd hkind]
    exact hs
  · have hfiled := (hfollows.tables i t ht).filed
    rw [act_call hfind ht]
    apply hs.absorb ht
    rw [Work.serve_definition (f := s.focus t) hfiled]
    apply Work.eachWatch (i := i) (f := s.focus t) hfiled (hstable t.definition) (hs i t ht)
    · intro reply hreply c hc
      rw [commits_call_ok ((congrArg Prod.fst hkind).trans hreply) hfind ht] at hfits
      exact hfits c hc t (Commit.table_of_mem_number hc ▸ ht)
    · intro criteria since timeout events ho
      exact hopens i t scope m criteria since timeout events ht ho

/-- **A stable property of watches is kept by every action** whose commits are fit, if the watches
that can be opened have it. -/
theorem EachWatch.act (hfollows : s.Follows log)
    (hstable : ∀ d, Watch.Stable d s.limits.queueCapacity (P d) (Fit d)) (hs : s.EachWatch P)
    (hopens : s.Opens P) {a : Action} (hfits : s.Fits Fit (s.commits a)) :
    (s.act a).2.EachWatch P := by
  cases a with
  | call kind scope m w => exact hs.call hfollows hstable hopens hfits
  | poll now h =>
    exact hs.onWatch h (fun f => (f.still_poll now h.id).definition_eq) fun f hf =>
      Focus.eachWatch_poll (hstable f.table.definition) hf now h.id
  | stopWatch h =>
    exact hs.onWatch h (fun f => (f.still_stopWatch h.id).definition_eq) fun f hf =>
      Focus.eachWatch_stopWatch (hstable f.table.definition) hf h.id
  | dropWatch h =>
    exact hs.onWatch h (fun f => (f.still_dropWatch h.id).definition_eq) fun f hf =>
      Focus.eachWatch_dropWatch hf h.id
  | shutdown =>
    intro i t ht
    replace ht : (s.tables.map Table.stop)[i]? = some t := ht
    rw [List.getElem?_map] at ht
    obtain ⟨t', ht', rfl⟩ := Option.map_eq_some_iff.mp ht
    exact (hs i t' ht').map rfl fun w hw => (hstable t'.definition).close w _ hw

/-! ### Live watches -/

/-- **A live watch has not been seen to end**, after every run. -/
theorem unfinished_run (hfollows : s.Follows log) (hs : s.EachWatch fun _ => Watch.Unfinished)
    (actions : List Action) : (s.run actions).EachWatch fun _ => Watch.Unfinished := by
  induction actions generalizing s log with
  | nil => exact hs
  | cons a actions ih =>
    apply ih (hfollows.act a)
    apply hs.act hfollows fun d => Watch.stable_unfinished d _
    · intro i t scope m criteria since timeout events _ _ _
      rfl
    · intro c _ t _
      trivial

end Store

end ControlPlane
