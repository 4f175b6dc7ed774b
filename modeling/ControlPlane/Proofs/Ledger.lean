import ControlPlane.Proofs.Run

/-!
# A store follows its log

A store is what its log made of it: the log numbers the mutations of all kinds from one on, and
every table has the records that its own commits wrote, one after the other, and a history that
holds the last of them. One action keeps this, whatever it is, and so does every run.

* `Store.Moves`: what one action can do to a store: nothing to the records, or commits of one table.
* `Store.Follows`: the store is what its log made of it.
* `Store.follows_run`: every run keeps that.
-/

namespace ControlPlane

/-! ## What one action can do -/

/-- The watches of a table have numbers below the next one. -/
def Table.Numbered (t : Table) : Prop := ∀ w ∈ t.watches, w.id < t.nextWatch

/-- The focus with the same objects and the same history; only watches and counters may differ. -/
structure Focus.Still (f f' : Focus) : Prop where
  definition_eq : f'.table.definition = f.table.definition
  records_eq : f'.table.records = f.table.records
  history_eq : f'.table.history = f.table.history
  version_eq : f'.version = f.version
  limits_eq : f'.limits = f.limits
  stopped_eq : f'.table.stopped = f.table.stopped
  numbered : f.table.Numbered → f'.table.Numbered

/-- What an action can do to the table it is about. -/
inductive Focus.Moves (i : Nat) (f : Focus) : List Commit → Focus → Prop
  | still {f' : Focus} : f.Still f' → Moves i f [] f'
  | commits {now : Nat} {verb : Verb} {log : List Commit} {f' : Focus} :
      Commits i now verb f log f' → Moves i f log f'

/-- What an action can do to a store, unless it is the shutdown. -/
inductive Store.Moves (s : Store) : List Commit → Store → Prop
  | still : Moves s [] s
  | table {i : Nat} {t : Table} {log : List Commit} {f' : Focus} : s.tables[i]? = some t →
      Focus.Moves i (s.focus t) log f' → Moves s log (s.absorb i f')

/-! ### Watches that keep their numbers -/

theorem Watch.close_id (w : Watch) (reason : Option EndReason) : (w.close reason).id = w.id := by
  unfold close
  split <;> rfl

theorem Watch.receive_id (w : Watch) (d : Definition) (capacity now : Nat) (version : Version)
    (change : Change) : (w.receive d capacity now version change).1.id = w.id := by
  cases hphase : w.phase with
  | ended reason => rw [receive_ended hphase]
  | live =>
    rw [receive_live hphase]
    split
    · exact w.close_id _
    · split
      · rfl
      · split
        · rfl
        · exact w.close_id _

theorem Watch.poll_id (w : Watch) (now : Nat) : (w.poll now).2.id = w.id := by
  have hexpire : (w.expire now).id = w.id := by
    unfold expire
    split
    · rfl
    · exact w.close_id _
  rw [← hexpire, poll]
  unfold take
  split
  · rfl
  · split <;> rfl

theorem Table.Numbered.map {t t' : Table} (h : t.Numbered) (g : Watch → Watch)
    (hg : ∀ w, (g w).id = w.id) (hwatches : t'.watches = t.watches.map g)
    (hnext : t'.nextWatch = t.nextWatch) : t'.Numbered := by
  intro w hw
  rw [hwatches] at hw
  obtain ⟨w', hw', rfl⟩ := List.mem_map.mp hw
  rw [hg, hnext]
  exact h w' hw'

namespace Focus

theorem Commits.numbered {i now : Nat} {verb : Verb} {f f' : Focus} {log : List Commit}
    (h : Commits i now verb f log f') (hf : f.table.Numbered) : f'.table.Numbered := by
  induction h with
  | nil => exact hf
  | cons _ _ _ _ ih => exact ih (hf.map _ (fun w => w.receive_id ..) (enter_watches ..) rfl)

theorem still_settle (f : Focus) {before after : Watch} (hid : after.id = before.id) :
    f.Still (f.settle before after) where
  definition_eq := rfl
  records_eq := rfl
  history_eq := rfl
  version_eq := rfl
  limits_eq := rfl
  stopped_eq := rfl
  numbered h := h.map _ (fun w => by split <;> simp_all) rfl rfl

theorem still_refl (f : Focus) : f.Still f := ⟨rfl, rfl, rfl, rfl, rfl, rfl, id⟩

theorem still_poll (f : Focus) (now id : Nat) : f.Still (f.poll now id).2 := by
  unfold poll
  cases f.table.watch? id with
  | none => exact f.still_refl
  | some w => exact f.still_settle (w.poll_id now)

theorem still_stopWatch (f : Focus) (id : Nat) : f.Still (f.stopWatch id) := by
  unfold stopWatch
  cases f.table.watch? id with
  | none => exact f.still_refl
  | some w => exact f.still_settle (w.close_id none)

theorem still_dropWatch (f : Focus) (id : Nat) : f.Still (f.dropWatch id) where
  definition_eq := rfl
  records_eq := rfl
  history_eq := rfl
  version_eq := rfl
  limits_eq := rfl
  stopped_eq := rfl
  numbered h := fun w hw => h w (List.mem_filter.mp hw).1

theorem still_enlist (f : Focus) (w : Watch) (hid : w.id = f.table.nextWatch) :
    f.Still (f.enlist w) where
  definition_eq := rfl
  records_eq := rfl
  history_eq := rfl
  version_eq := rfl
  limits_eq := rfl
  stopped_eq := rfl
  numbered h := by
    intro w' hw'
    rcases List.mem_append.mp hw' with hw' | hw'
    · exact Nat.lt_succ_of_lt (h w' hw')
    · obtain rfl := List.mem_singleton.mp hw'
      exact hid ▸ Nat.lt_succ_self _

end Focus

/-! ### Every action moves the store -/

namespace Store

variable {s s' : Store} {log log' : List Commit}

theorem tables_absorb_self {i : Nat} {t : Table} (h : s.tables[i]? = some t) (f : Focus) :
    (s.absorb i f).tables[i]? = some f.table := by
  have hi : i < s.tables.length := (List.getElem?_eq_some_iff.mp h).1
  simp [absorb, hi]

theorem tables_absorb_ne {i j : Nat} (h : i ≠ j) (f : Focus) :
    (s.absorb i f).tables[j]? = s.tables[j]? := by
  simp [absorb, h]

/-- A table of a store that absorbed a focus is that of the focus, or was there before. -/
theorem tables_absorb {i j : Nat} {t t' : Table} (ht : s.tables[i]? = some t) {f : Focus}
    (ht' : (s.absorb i f).tables[j]? = some t') :
    (i = j ∧ t' = f.table) ∨ (i ≠ j ∧ s.tables[j]? = some t') := by
  by_cases hij : i = j
  · subst hij
    rw [tables_absorb_self ht] at ht'
    exact Or.inl ⟨rfl, (Option.some.inj ht').symm⟩
  · rw [tables_absorb_ne hij] at ht'
    exact Or.inr ⟨hij, ht'⟩

/-- A call is served by the table of its kind, if there is one. -/
theorem onKind_cases {α : Type} (s : Store) (kind : String)
    (operation : Focus → Except Error α × Focus) :
    (∃ e, s.onKind kind operation = (.error e, s)) ∨
    ∃ i t, s.find kind = .ok i ∧ s.tables[i]? = some t ∧
      s.onKind kind operation =
        ((operation (s.focus t)).1, s.absorb i (operation (s.focus t)).2) := by
  unfold onKind
  cases hfind : s.find kind with
  | error e => exact Or.inl ⟨e, rfl⟩
  | ok i =>
    dsimp only
    cases ht : s.tables[i]? with
    | none => exact Or.inl ⟨_, rfl⟩
    | some t => exact Or.inr ⟨i, t, rfl, ht, rfl⟩

theorem act_call {kind : String} {i : Nat} {t : Table} (hfind : s.find kind = .ok i)
    (ht : s.tables[i]? = some t) (scope : Scope) (m : Moment) (w : Work) :
    s.act (.call kind scope m w) = (.answer (w.serve scope m (s.focus t)).1,
      s.absorb i (w.serve scope m (s.focus t)).2) := by
  simp only [act, onKind, hfind, ht]

theorem commits_call_error {kind : String} {scope : Scope} {m : Moment} {w : Work} {e : Error}
    (h : (s.onKind kind (w.serve scope m)).1 = .error e) :
    s.commits (.call kind scope m w) = [] := by
  simp only [commits, act, h]

theorem commits_call_ok {kind : String} {scope : Scope} {m : Moment} {w : Work} {reply : Reply}
    {i : Nat} {t : Table} (h : (s.onKind kind (w.serve scope m)).1 = .ok reply)
    (hfind : s.find kind = .ok i) (ht : s.tables[i]? = some t) :
    s.commits (.call kind scope m w) =
      Commit.number i t.definition s.version (w.changes t reply) := by
  simp only [commits, act, h, hfind, ht]

/-- A call whose answers tell of no changes has no commits. -/
theorem commits_call_nil {kind : String} {scope : Scope} {m : Moment} {w : Work}
    (h : ∀ t reply, w.changes t reply = []) : s.commits (.call kind scope m w) = [] := by
  rcases onKind_cases s kind (w.serve scope m) with ⟨e, hkind⟩ | ⟨i, t, hfind, ht, hkind⟩
  · exact commits_call_error (congrArg Prod.fst hkind)
  · cases hresult : (w.serve scope m (s.focus t)).1 with
    | error e => exact commits_call_error ((congrArg Prod.fst hkind).trans hresult)
    | ok reply =>
      rw [commits_call_ok ((congrArg Prod.fst hkind).trans hresult) hfind ht, h]
      rfl

theorem onWatch_moves {α : Type} (w : WatchHandle) {operation : Focus → α × Focus}
    (hstill : ∀ f : Focus, f.Still (operation f).2) : s.Moves [] (s.onWatch w operation).2 := by
  unfold onWatch
  split
  · exact .still
  · split
    · exact .still
    · next ht => exact .table ht (.still (hstill _))

/-- Every record of every table lies in its place. -/
def Filed (s : Store) : Prop :=
  ∀ (i : Nat) (t : Table), s.tables[i]? = some t → ControlPlane.Filed t.definition t.records

theorem absorb_focus {i : Nat} {t : Table} (ht : s.tables[i]? = some t) :
    s.absorb i (s.focus t) = s := by
  obtain ⟨hi, rfl⟩ := List.getElem?_eq_some_iff.mp ht
  rw [absorb, focus, List.set_getElem_self hi]

/-- What a call does to a store: nothing; or it enters commits of one table; or it opens a watch. -/
inductive Called (s : Store) (m : Moment) : List Commit → Except Error Reply → Store → Prop
  | still {result : Except Error Reply} : Called s m [] result s
  | mutated {i : Nat} {t : Table} {verb : Verb} {log : List Commit} {reply : Reply} {f' : Focus} :
      s.tables[i]? = some t → Focus.Commits i m.now verb (s.focus t) log f' →
      Called s m log (.ok reply) (s.absorb i f')
  | opened {i : Nat} {t : Table} {w : Watch} {reply : Reply} : s.tables[i]? = some t →
      w.id = t.nextWatch → Called s m [] (.ok reply) (s.absorb i ((s.focus t).enlist w))

theorem Called.moves {m : Moment} {result : Except Error Reply} (h : s.Called m log result s') :
    s.Moves log s' := by
  cases h with
  | still => exact .still
  | mutated ht hc => exact .table ht (.commits hc)
  | opened ht hid => exact .table ht (.still ((s.focus _).still_enlist _ hid))

theorem Called.refused {m : Moment} {e : Error} (h : s.Called m log (.error e) s') : s' = s := by
  cases h with
  | still => rfl

/-- **A call does what its answer tells.** -/
theorem call_cases (hs : s.Filed)
    (kind : String) (scope : Scope) (m : Moment) (w : Work) :
    ∃ result, (s.act (.call kind scope m w)).1 = .answer result ∧
      s.Called m (s.commits (.call kind scope m w)) result (s.act (.call kind scope m w)).2 := by
  rcases onKind_cases s kind (w.serve scope m) with ⟨e, h⟩ | ⟨i, t, hfind, ht, h⟩
  · rw [commits_call_error (congrArg Prod.fst h)]
    simp only [act, h]
    exact ⟨_, rfl, .still⟩
  · have hact : s.act (.call kind scope m w) = (.answer (w.serve scope m (s.focus t)).1,
        s.absorb i (w.serve scope m (s.focus t)).2) := by simp only [act, h]
    have hresult := congrArg Prod.fst h
    have hserved : Work.Served i scope m (s.focus t) w (w.serve scope m (s.focus t)) :=
      Work.serve_spec i (hs i t ht) w
    rw [hact]
    refine ⟨_, rfl, ?_⟩
    generalize w.serve scope m (s.focus t) = p at hserved hresult ⊢
    cases hserved with
    | @still _ result hnone =>
      have hcommits : s.commits (.call kind scope m w) = [] := by
        cases result with
        | error e => exact commits_call_error hresult
        | ok reply =>
          rw [commits_call_ok hresult hfind ht, show w.changes t reply = [] from hnone reply rfl]
          rfl
      rw [hcommits, absorb_focus ht]
      exact .still
    | mutated hc =>
      rw [commits_call_ok hresult hfind ht]
      exact .mutated ht hc
    | opened ho =>
      rw [commits_call_ok hresult hfind ht]
      exact .opened ht rfl

theorem call_moves (hs : s.Filed)
    (kind : String) (scope : Scope) (m : Moment) (w : Work) :
    s.Moves (s.commits (.call kind scope m w)) (s.act (.call kind scope m w)).2 := by
  obtain ⟨result, -, hcalled⟩ := call_cases hs kind scope m w
  exact hcalled.moves

/-- **Every action but the shutdown moves the store, and its commits are what its outcome tells.**
-/
theorem act_moves (hs : s.Filed)
    (a : Action) : a = .shutdown ∨ s.Moves (s.commits a) (s.act a).2 := by
  cases a with
  | call kind scope m w => exact Or.inr (call_moves hs kind scope m w)
  | poll now w => exact Or.inr (onWatch_moves w fun f => f.still_poll now w.id)
  | stopWatch w => exact Or.inr (onWatch_moves w fun f => f.still_stopWatch w.id)
  | dropWatch w => exact Or.inr (onWatch_moves w fun f => f.still_dropWatch w.id)
  | shutdown => exact Or.inl rfl

end Store

/-! ## What the log made of a store -/

/-- The table is what the log of its commits made of it. -/
structure Table.Follows (t : Table) (log : List Commit) : Prop where
  records_eq : t.records = replay [] log
  legal : Legal t.definition [] log
  retains : t.history.Retains (log.map fun c => (c.version, c.change))

namespace Table.Follows

variable {t : Table} {log : List Commit}

theorem filed (h : t.Follows log) : Filed t.definition t.records := by
  rw [h.records_eq]
  exact filed_replay (filed_nil _) h.legal

theorem sorted (h : t.Follows log) : SortedMap.Sorted t.records := by
  rw [h.records_eq]
  exact sorted_replay SortedMap.sorted_nil log

end Table.Follows

/-- The store is what its log made of it. -/
structure Store.Follows (s : Store) (log : List Commit) : Prop where
  versions_eq : log.map (·.version) = List.range' 1 s.version
  known : ∀ c ∈ log, c.table < s.tables.length
  tables : ∀ (i : Nat) (t : Table), s.tables[i]? = some t → t.Follows (ofTable i log)
  numbered : ∀ (i : Nat) (t : Table), s.tables[i]? = some t → t.Numbered

namespace Store

theorem follows_empty (catalog : Catalog) (limits : WatchLimits) :
    (empty catalog limits).Follows [] where
  versions_eq := rfl
  known c hc := by cases hc
  tables i t ht := by
    rw [empty, List.getElem?_map] at ht
    obtain ⟨d, -, rfl⟩ := Option.map_eq_some_iff.mp ht
    exact ⟨rfl, trivial, History.retains_empty _⟩
  numbered i t ht := by
    rw [empty, List.getElem?_map] at ht
    obtain ⟨d, -, rfl⟩ := Option.map_eq_some_iff.mp ht
    intro w hw
    cases hw

/-- The definitions of the kinds, in the order of the tables. -/
def definitions (s : Store) : List Definition := s.tables.map (·.definition)

/-- What no action changes: the kinds and the limits. -/
structure SameKinds (s s' : Store) : Prop where
  catalog_eq : s'.catalog = s.catalog
  limits_eq : s'.limits = s.limits
  definitions_eq : s'.definitions = s.definitions

theorem ofTable_eq_self {i : Nat} {log : List Commit} (h : ∀ c ∈ log, c.table = i) :
    ofTable i log = log := List.filter_eq_self.mpr fun c hc => by simpa using h c hc

theorem ofTable_eq_nil {i j : Nat} {log : List Commit} (h : ∀ c ∈ log, c.table = i) (hij : i ≠ j) :
    ofTable j log = [] := List.filter_eq_nil_iff.mpr fun c hc => by simpa [h c hc] using hij

/-- The commits of one table, after those that the table follows. -/
theorem follows_commits {i now : Nat} {verb : Verb} {f f' : Focus} {log log' : List Commit}
    (hf : f.table.Follows log) (h : Focus.Commits i now verb f log' f') :
    f'.table.Follows (log ++ log') where
  records_eq := by rw [h.records_eq, hf.records_eq, replay_append]
  legal := by
    rw [h.definition_eq]
    exact legal_append.mpr ⟨hf.legal, hf.records_eq ▸ h.legal⟩
  retains := by
    rw [List.map_append]
    exact h.retains hf.retains

theorem follows_still {f f' : Focus} {log : List Commit} (hf : f.table.Follows log)
    (h : f.Still f') : f'.table.Follows log where
  records_eq := h.records_eq.trans hf.records_eq
  legal := h.definition_eq ▸ hf.legal
  retains := h.history_eq ▸ hf.retains

theorem follows_stop {t : Table} {log : List Commit} (h : t.Follows log) : t.stop.Follows log :=
  ⟨h.records_eq, h.legal, h.retains⟩

theorem numbered_stop {t : Table} (h : t.Numbered) : t.stop.Numbered :=
  h.map _ (fun w => w.close_id _) rfl rfl

/-! ### Steps of one table -/

section Moves

variable {i : Nat} {f f' : Focus} {log log' : List Commit}

theorem moves_definition (h : Focus.Moves i f log f') :
    f'.table.definition = f.table.definition := by
  cases h with
  | still hstill => exact hstill.definition_eq
  | commits hc => exact hc.definition_eq

theorem moves_table (h : Focus.Moves i f log f') : ∀ c ∈ log, c.table = i := by
  cases h with
  | still hstill =>
    intro c hc
    cases hc
  | commits hc => exact hc.table_eq

theorem moves_numbered (h : Focus.Moves i f log f') (hf : f.table.Numbered) :
    f'.table.Numbered := by
  cases h with
  | still hstill => exact hstill.numbered hf
  | commits hc => exact hc.numbered hf

theorem moves_versions (h : Focus.Moves i f log f') :
    log.map (·.version) = List.range' (f.version + 1) log.length ∧
      f'.version = f.version + log.length := by
  cases h with
  | still hstill => exact ⟨rfl, hstill.version_eq⟩
  | commits hc => exact ⟨hc.versions_eq, hc.version_eq⟩

theorem moves_follows (h : Focus.Moves i f log' f') (hf : f.table.Follows log) :
    f'.table.Follows (log ++ log') := by
  cases h with
  | still hstill =>
    rw [List.append_nil]
    exact follows_still hf hstill
  | commits hc => exact follows_commits hf hc

end Moves

/-! ### Steps of the store -/

variable {s s' : Store} {log log' : List Commit}

theorem moves_sameKinds (h : s.Moves log s') : s.SameKinds s' := by
  cases h with
  | still => exact ⟨rfl, rfl, rfl⟩
  | @table i t log f' ht hf =>
    refine ⟨rfl, rfl, ?_⟩
    have hi : s.definitions[i]? = some t.definition := by simp [definitions, ht]
    obtain ⟨hlt, hget⟩ := List.getElem?_eq_some_iff.mp hi
    rw [definitions, absorb, List.map_set, moves_definition hf, show (s.focus t).table.definition =
      s.definitions[i] from hget.symm]
    exact List.set_getElem_self hlt

theorem sameKinds_shutdown (s : Store) : s.SameKinds s.shutdown := by
  refine ⟨rfl, rfl, ?_⟩
  rw [definitions, shutdown, List.map_map]
  rfl

/-- **One step keeps what the log made of the store.** -/
theorem follows_moves (hs : s.Follows log) (h : s.Moves log' s') : s'.Follows (log ++ log') := by
  cases h with
  | still =>
    rw [List.append_nil]
    exact hs
  | @table i t _ f' ht hf =>
    obtain ⟨hversions, hversion⟩ := moves_versions hf
    refine ⟨?_, fun c hc => ?_, fun j t' ht' => ?_, fun j t' ht' => ?_⟩
    · rw [List.map_append, hs.versions_eq, hversions,
        show (s.absorb i f').version = f'.version from rfl, hversion,
        Nat.add_comm (s.focus t).version 1]
      exact List.range'_append_1
    · rw [absorb, List.length_set]
      rcases List.mem_append.mp hc with hc | hc
      · exact hs.known c hc
      · exact moves_table hf c hc ▸ (List.getElem?_eq_some_iff.mp ht).1
    · rw [ofTable_append]
      rcases tables_absorb ht ht' with ⟨rfl, rfl⟩ | ⟨hij, ht'⟩
      · rw [ofTable_eq_self (moves_table hf)]
        exact moves_follows hf (hs.tables i t ht)
      · rw [ofTable_eq_nil (moves_table hf) hij, List.append_nil]
        exact hs.tables j t' ht'
    · rcases tables_absorb ht ht' with ⟨rfl, rfl⟩ | ⟨-, ht'⟩
      · exact moves_numbered hf (hs.numbered i t ht)
      · exact hs.numbered j t' ht'

theorem follows_shutdown (hs : s.Follows log) : s.shutdown.Follows log := by
  have hstop (i : Nat) (t : Table) (ht : s.shutdown.tables[i]? = some t) :
      ∃ t', s.tables[i]? = some t' ∧ t'.stop = t := by
    rw [shutdown, List.getElem?_map] at ht
    exact Option.map_eq_some_iff.mp ht
  refine ⟨hs.versions_eq, fun c hc => ?_, fun i t ht => ?_, fun i t ht => ?_⟩
  · rw [shutdown, List.length_map]
    exact hs.known c hc
  · obtain ⟨t', ht', rfl⟩ := hstop i t ht
    exact follows_stop (hs.tables i t' ht')
  · obtain ⟨t', ht', rfl⟩ := hstop i t ht
    exact numbered_stop (hs.numbered i t' ht')

/-! ### Runs -/

theorem Follows.filed (hs : s.Follows log) : s.Filed := fun i t ht => (hs.tables i t ht).filed

theorem Follows.act (hs : s.Follows log) (a : Action) :
    (s.act a).2.Follows (log ++ s.commits a) := by
  rcases act_moves hs.filed a with rfl | h
  · exact (List.append_nil log).symm ▸ follows_shutdown hs
  · exact follows_moves hs h

/-- **Every run keeps what the log made of the store.** -/
theorem follows_run (hs : s.Follows log) (actions : List Action) :
    (s.run actions).Follows (log ++ s.log actions) := by
  induction actions generalizing s log with
  | nil => simpa [Store.log] using hs
  | cons a actions ih =>
    rw [run_cons, Store.log, ← List.append_assoc]
    exact ih (hs.act a)

/-- **A store that was empty follows the log of its run.** -/
theorem follows_reached (catalog : Catalog) (limits : WatchLimits) (actions : List Action) :
    ((empty catalog limits).run actions).Follows ((empty catalog limits).log actions) := by
  simpa using follows_run (follows_empty catalog limits) actions

theorem SameKinds.trans {s'' : Store} (h : s.SameKinds s') (h' : s'.SameKinds s'') :
    s.SameKinds s'' where
  catalog_eq := h'.catalog_eq.trans h.catalog_eq
  limits_eq := h'.limits_eq.trans h.limits_eq
  definitions_eq := h'.definitions_eq.trans h.definitions_eq

theorem sameKinds_act (hs : s.Follows log) (a : Action) : s.SameKinds (s.act a).2 := by
  rcases act_moves hs.filed a with rfl | h
  · exact sameKinds_shutdown s
  · exact moves_sameKinds h

theorem sameKinds_run (hs : s.Follows log) (actions : List Action) :
    s.SameKinds (s.run actions) := by
  induction actions generalizing s log with
  | nil => exact ⟨rfl, rfl, rfl⟩
  | cons a actions ih =>
    exact (sameKinds_act hs a).trans (ih (hs.act a))

/-! ### Stores that run -/

/-- No table is stopped. -/
def Running (s : Store) : Prop := ∀ (i : Nat) (t : Table), s.tables[i]? = some t → t.stopped = false

theorem running_empty (catalog : Catalog) (limits : WatchLimits) :
    (empty catalog limits).Running := by
  intro i t ht
  rw [empty, List.getElem?_map] at ht
  obtain ⟨d, -, rfl⟩ := Option.map_eq_some_iff.mp ht
  rfl

theorem Moves.running (h : s.Moves log s') (hs : s.Running) : s'.Running := by
  cases h with
  | still => exact hs
  | @table i t _ f' ht hf =>
    have hstopped : f'.table.stopped = t.stopped := by
      cases hf with
      | still hstill => exact hstill.stopped_eq
      | commits hc => exact hc.stopped_eq
    intro j t' ht'
    rcases tables_absorb ht ht' with ⟨rfl, rfl⟩ | ⟨-, ht'⟩
    · rw [hstopped]
      exact hs i t ht
    · exact hs j t' ht'

/-- Only the shutdown stops a store. -/
theorem running_run (hs : s.Follows log) (hrunning : s.Running) {actions : List Action}
    (hactions : .shutdown ∉ actions) : (s.run actions).Running := by
  induction actions generalizing s log with
  | nil => exact hrunning
  | cons a actions ih =>
    rw [List.mem_cons, not_or] at hactions
    rcases act_moves hs.filed a with rfl | h
    · exact absurd rfl hactions.1
    · exact ih (hs.act a) (h.running hrunning) hactions.2

/-! ### Names of kinds lead where they led -/

theorem position?_congr (h : s'.definitions = s.definitions) (fullName : String) :
    s'.position? fullName = s.position? fullName := by
  have hposition (s : Store) :
      s.position? fullName = s.definitions.findIdx? (·.fullName == fullName) := by
    rw [definitions, List.findIdx?_map]
    rfl
  rw [hposition, hposition, h]

theorem find_congr (hcatalog : s'.catalog = s.catalog) (h : s'.definitions = s.definitions)
    (kind : String) : s'.find kind = s.find kind := by
  unfold find
  simp only [hcatalog, position?_congr h]

theorem SameKinds.position?_eq (h : s.SameKinds s') (fullName : String) :
    s'.position? fullName = s.position? fullName := position?_congr h.definitions_eq fullName

theorem SameKinds.find_eq (h : s.SameKinds s') (kind : String) : s'.find kind = s.find kind :=
  find_congr h.catalog_eq h.definitions_eq kind

theorem SameKinds.definition_eq (h : s.SameKinds s') {i : Nat} {t t' : Table}
    (ht : s.tables[i]? = some t) (ht' : s'.tables[i]? = some t') :
    t'.definition = t.definition := by
  have hdefinitions := congrArg (·[i]?) h.definitions_eq
  simp only [definitions, List.getElem?_map, ht, ht', Option.map_some] at hdefinitions
  exact Option.some.inj hdefinitions

theorem SameKinds.table_some (h : s.SameKinds s') {i : Nat} {t : Table}
    (ht : s.tables[i]? = some t) : ∃ t', s'.tables[i]? = some t' := by
  have hlength := congrArg List.length h.definitions_eq
  rw [definitions, definitions, List.length_map, List.length_map] at hlength
  exact ⟨_, List.getElem?_eq_getElem (hlength ▸ (List.getElem?_eq_some_iff.mp ht).1)⟩

theorem SameKinds.symm (h : s.SameKinds s') : s'.SameKinds s :=
  ⟨h.catalog_eq.symm, h.limits_eq.symm, h.definitions_eq.symm⟩

end Store

end ControlPlane
