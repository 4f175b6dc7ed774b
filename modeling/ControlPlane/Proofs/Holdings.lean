import ControlPlane.Proofs.Cache
import ControlPlane.Proofs.Confinement
import ControlPlane.Proofs.Precondition
import ControlPlane.Proofs.Watchers

/-!
# What holds of everything a store holds

An object gets into a store by a creation or a replacement. From its record it gets into the
history, once as the new object of a change and perhaps once as the old one, and into the events of
watches; what is deleted goes there at another version. So a property of objects that creations and
replacements give, and that does not look at the version, holds of every object in a store, wherever
it is held, and of every object that the store gives away.

* `Object.Lasting`: a property that creations and replacements give, if the objects and the moments
  that are brought are as they should be.
* `Commit.Leaves`, `Store.leaves_run`: it holds of what every commit of a run leaves.
* `Store.Holds`, `Store.holds_run`: it holds of every object in records, histories and watches.
* `Store.Holds.answered`, `Store.Holds.taken`: and of every object that is answered or taken.
-/

namespace ControlPlane

/-- A property of the objects of a kind that a store keeps up: it has it of what a creation and a
replacement store, if what is brought to them is as it should be; and so is what a patch makes of a
stored object. -/
structure Object.Lasting (P : Definition → Object → Prop) (Brought : Object → Prop)
    (Timely : Moment → Prop) : Prop where
  created : ∀ {t : Table} {scope : Scope} {m : Moment} {o o' : Object} {key : Key} (v : Version),
    Brought o → Timely m → t.creation scope m.suffix o = .ok (key, o') →
    P t.definition (o'.born m v)
  replaced : ∀ {t : Table} {scope : Scope} {o next : Object} {expected : Option Version}
    {x : Option Subresource} {key : Key} {r : Record} (v : Version),
    Brought o → P t.definition r.object → t.revision scope o expected x = .ok (key, r, next) →
    P t.definition (next.succeeding r.object v)
  patched : ∀ {d : Definition} {current o : Object} {p : Patch} {x : Option Subresource}
    {wall : Timestamp}, P d current → p.applyTo d current x wall = .ok o → Brought o

/-! ## Records -/

/-- The objects of all records have the property. -/
def AllHold (P : Object → Prop) (records : SortedMap Key Record) : Prop :=
  ∀ key r, SortedMap.get? records key = some r → P r.object

/-- The object of the record that the commit leaves, if any, has the property. -/
def Commit.Leaves (P : Object → Prop) (c : Commit) : Prop := ∀ r, c.record? = some r → P r.object

/-- Every object of the change has the property. -/
def Change.Shows (P : Object → Prop) : Change → Prop
  | created new => P new
  | updated old new => P old ∧ P new
  | deleted tombstone => P tombstone

theorem Change.Shows.imp {P Q : Object → Prop} {c : Change} (h : c.Shows P)
    (himp : ∀ o, P o → Q o) : c.Shows Q := by
  cases c with
  | created new => exact himp _ h
  | updated old new => exact ⟨himp _ h.1, himp _ h.2⟩
  | deleted tombstone => exact himp _ h

section Log

variable {P : Object → Prop} {records : SortedMap Key Record} {log : List Commit} {c : Commit}

theorem allHold_write (h : AllHold P records) (hc : c.Leaves P) : AllHold P (c.write records) := by
  intro key r hr
  by_cases hkey : key = c.key
  · subst hkey
    rw [Commit.get?_write_self] at hr
    exact hc r hr
  · rw [Commit.get?_write_of_ne _ _ hkey] at hr
    exact h key r hr

theorem allHold_replay (h : AllHold P records) (hlog : ∀ c ∈ log, c.Leaves P) :
    AllHold P (replay records log) := by
  induction log generalizing records with
  | nil => exact h
  | cons c log ih =>
    apply ih (allHold_write h (hlog c List.mem_cons_self))
    intro c' hc'
    exact hlog c' (List.mem_cons_of_mem c hc')

/-- What a commit shows has the property, if the records and what it leaves have it. -/
theorem Commit.Leaves.shows {d : Definition} (hstamped : ∀ o v, P o → P (o.stamped v))
    (h : AllHold P records) (hfits : c.Fits d records) (hc : c.Leaves P) : c.change.Shows P := by
  obtain ⟨table, key, version, change⟩ := c
  replace hfits : change.Fits d records version key := hfits
  cases hfits with
  | created _ _ => exact hc _ rfl
  | @updated r new hget _ => exact ⟨h key r hget, hc _ rfl⟩
  | @deleted r hget _ => exact hstamped _ version (h key r hget)

/-- **What legal commits show has the property**, if what they leave has it. -/
theorem Legal.shows {d : Definition} (hstamped : ∀ o v, P o → P (o.stamped v))
    (h : AllHold P records) (hlegal : Legal d records log) (hlog : ∀ c ∈ log, c.Leaves P) :
    ∀ c ∈ log, c.change.Shows P := by
  induction log generalizing records with
  | nil =>
    intro c hc
    cases hc
  | cons c log ih =>
    have hfirst : c.Leaves P := hlog c List.mem_cons_self
    have hrest : ∀ c' ∈ log, c'.Leaves P := fun c' hc' => hlog c' (List.mem_cons_of_mem c hc')
    intro c' hc'
    rcases List.mem_cons.mp hc' with rfl | hc'
    · exact hfirst.shows hstamped h hlegal.1
    · exact ih (allHold_write h hfirst) hlegal.2 hrest c' hc'

theorem leaves_of_put {t : Table} {o : Object} (ho : P o) (hc : c.change = t.put o) :
    c.Leaves P := by
  intro r hr
  unfold Table.put at hc
  unfold Commit.record? at hr
  split at hc
  · rw [hc] at hr
    obtain rfl := Option.some.inj hr
    exact ho
  · rw [hc] at hr
    obtain rfl := Option.some.inj hr
    exact ho

theorem leaves_of_deleted {tombstone : Object} (hc : c.change = .deleted tombstone) :
    c.Leaves P := by
  intro r hr
  rw [Commit.record?, hc] at hr
  cases hr

end Log

/-! ## One call -/

section Call

variable {P : Definition → Object → Prop} {Brought : Object → Prop} {Timely : Moment → Prop}
  {f : Focus} {scope : Scope} {m : Moment}

theorem Focus.lasting_replace (hP : Object.Lasting P Brought Timely)
    (hall : AllHold (P f.table.definition) f.table.records) {verb : Verb} {o new : Object}
    {expected : Option Version} {x : Option Subresource} (ho : Brought o)
    (h : (f.replace scope m verb o expected x).1 = .ok new) : P f.table.definition new := by
  obtain ⟨key, r, next, hd, rfl⟩ := replace_eq_ok_iff.mp h
  obtain ⟨-, -, -, -, hget, -⟩ := Table.revision_eq_ok_iff.mp hd
  exact hP.replaced f.version.next ho (hall key r hget) hd

theorem Focus.lasting_patch (hP : Object.Lasting P Brought Timely)
    (hall : AllHold (P f.table.definition) f.table.records) {key : Key} {new : Object}
    {x : Option Subresource} {p : Patch} (h : (f.patch scope m key x p).1 = .ok new) :
    P f.table.definition new := by
  obtain ⟨o, read, hd, hreplace⟩ := patch_eq_ok_iff.mp h
  obtain ⟨r, hr, -, ho⟩ := patched_eq_ok hd
  have hcurrent := hall key r (Table.record_eq_ok_iff.mp hr).1
  exact lasting_replace hP hall (hP.patched hcurrent ho) hreplace

namespace Store

/-- What the call brings is as it should be: its object, if it has one, and the moment at which it
creates it. -/
def Work.Brings (Brought : Object → Prop) (Timely : Moment → Prop) (m : Moment) : Work → Prop
  | .request (.create o) => Brought o ∧ Timely m
  | .request (.update o _ _) => Brought o
  | .writeBack o _ _ => Brought o
  | _ => True

/-- What the action brings is as it should be, if it is a call. -/
def Action.Brings (Brought : Object → Prop) (Timely : Moment → Prop) : Action → Prop
  | .call _ _ m w => w.Brings Brought Timely m
  | _ => True

theorem Action.Brings.imp {Brought' : Object → Prop} {a : Action} (ha : a.Brings Brought Timely)
    (h : ∀ o, Brought o → Brought' o) :
    a.Brings Brought' Timely := by
  cases a with
  | call kind scope m w =>
    cases w with
    | writeBack o read x => exact h o ha
    | request r =>
      cases r with
      | create o => exact ⟨h o ha.1, ha.2⟩
      | update o expected subresource => exact h o ha
      | _ => trivial
  | _ => trivial

/-- The objects that an answered call puts in their places have the property. -/
theorem Work.leaves (hP : Object.Lasting P Brought Timely)
    (hall : AllHold (P f.table.definition) f.table.records) {w : Work}
    (hw : w.Brings Brought Timely m) {reply : Reply} (h : (w.serve scope m f).1 = .ok reply)
    {c : Commit} (hc : c.change ∈ w.changes f.table reply) : c.Leaves (P f.table.definition) := by
  have put {result : Except Error Object}
      (hchanges : ∀ o, w.changes f.table (.object o) = [f.table.put o])
      (h : result.map .object = .ok reply)
      (hresult : ∀ o, result = .ok o → P f.table.definition o) :
      c.Leaves (P f.table.definition) := by
    obtain ⟨o, ho, rfl⟩ := map_eq_ok_iff.mp h
    rw [hchanges] at hc
    exact leaves_of_put (hresult o ho) (List.mem_singleton.mp hc)
  cases w with
  | writeBack o read x => exact put (fun _ => rfl) h fun _ => Focus.lasting_replace hP hall hw
  | request r =>
    cases r with
    | create o =>
      apply put (fun _ => rfl) h
      intro new hnew
      obtain ⟨key, o', hd, rfl⟩ := Focus.create_eq_ok_iff.mp hnew
      exact hP.created f.version.next hw.1 hw.2 hd
    | get key =>
      obtain ⟨_, -, rfl⟩ := map_eq_ok_iff.mp h
      cases hc
    | list criteria =>
      obtain ⟨_, -, rfl⟩ := map_eq_ok_iff.mp h
      cases hc
    | watch criteria since timeout =>
      obtain ⟨_, -, rfl⟩ := map_eq_ok_iff.mp h
      cases hc
    | update o expected subresource =>
      obtain ⟨x, -, hx⟩ := serve_update_ok h
      exact put (fun _ => rfl) hx fun _ => Focus.lasting_replace hP hall hw
    | patch key subresource p =>
      obtain ⟨x, -, hx⟩ := serve_patch_ok h
      exact put (fun _ => rfl) hx fun _ => Focus.lasting_patch hP hall
    | delete key precondition =>
      obtain ⟨_, -, rfl⟩ := map_eq_ok_iff.mp h
      exact leaves_of_deleted (List.mem_singleton.mp hc)
    | deleteCollection criteria =>
      obtain ⟨_, -, rfl⟩ := map_eq_ok_iff.mp h
      obtain ⟨_, -, hchange⟩ := List.mem_map.mp hc
      exact leaves_of_deleted hchange.symm

end Store

end Call

/-! ## Runs -/

namespace Store

variable {P : Definition → Object → Prop} {Brought : Object → Prop} {Timely : Moment → Prop}
  {s s' : Store} {log : List Commit}

/-- What every commit of the log leaves has the property that belongs to its kind. -/
def Leaves (P : Definition → Object → Prop) (s : Store) (log : List Commit) : Prop :=
  ∀ c ∈ log, ∀ t, s.tables[c.table]? = some t → c.Leaves (P t.definition)

theorem leaves_nil (P : Definition → Object → Prop) (s : Store) : s.Leaves P [] := by
  intro c hc
  cases hc

theorem Leaves.congr (h : s.Leaves P log) (hkinds : s.SameKinds s') : s'.Leaves P log := by
  intro c hc t' ht'
  obtain ⟨t, ht⟩ := hkinds.symm.table_some ht'
  rw [hkinds.definition_eq ht ht']
  exact h c hc t ht

theorem Leaves.ofTable (h : s.Leaves P log) {i : Nat} {t : Table} (ht : s.tables[i]? = some t) :
    ∀ c ∈ ofTable i log, c.Leaves (P t.definition) := by
  intro c hc
  obtain ⟨hmem, htable⟩ := List.mem_filter.mp hc
  exact h c hmem t (by rwa [show c.table = i by simpa using htable])

theorem Follows.allHold (hs : s.Follows log) (hlog : s.Leaves P log) {i : Nat} {t : Table}
    (ht : s.tables[i]? = some t) : AllHold (P t.definition) t.records := by
  rw [(hs.tables i t ht).records_eq]
  apply allHold_replay
  · intro key r hr
    cases hr
  · exact hlog.ofTable ht

/-- What one action commits leaves objects that have the property. -/
theorem leaves_commits (hP : Object.Lasting P Brought Timely) (hs : s.Follows log)
    (hlog : s.Leaves P log) {a : Action} (ha : a.Brings Brought Timely) :
    s.Leaves P (s.commits a) := by
  intro c hc t ht
  cases a with
  | call kind scope m w =>
    rcases onKind_cases s kind (w.serve scope m) with ⟨e, hkind⟩ | ⟨i, t', hfind, ht', hkind⟩
    · rw [commits_call_error (congrArg Prod.fst hkind)] at hc
      cases hc
    · cases hresult : (w.serve scope m (s.focus t')).1 with
      | error e =>
        rw [commits_call_error ((congrArg Prod.fst hkind).trans hresult)] at hc
        cases hc
      | ok reply =>
        rw [commits_call_ok ((congrArg Prod.fst hkind).trans hresult) hfind ht'] at hc
        obtain rfl := Commit.table_of_mem_number hc
        obtain rfl := Option.some.inj (ht'.symm.trans ht)
        exact Work.leaves (f := s.focus t') hP (hs.allHold hlog ht') ha hresult
          (Commit.mem_number hc)
  | poll now h => cases hc
  | stopWatch h => cases hc
  | dropWatch h => cases hc
  | shutdown => cases hc

theorem leaves_act (hP : Object.Lasting P Brought Timely) (hs : s.Follows log)
    (hlog : s.Leaves P log) {a : Action} (ha : a.Brings Brought Timely) :
    (s.act a).2.Leaves P (log ++ s.commits a) := by
  refine Leaves.congr ?_ (sameKinds_act hs a)
  intro c hc
  rcases List.mem_append.mp hc with hc | hc
  · exact hlog c hc
  · exact leaves_commits hP hs hlog ha c hc

/-- **What every commit of a run leaves has the property.** -/
theorem leaves_run (hP : Object.Lasting P Brought Timely) (hs : s.Follows log)
    (hlog : s.Leaves P log) {actions : List Action}
    (hactions : ∀ a ∈ actions, a.Brings Brought Timely) :
    (s.run actions).Leaves P (log ++ s.log actions) := by
  induction actions generalizing s log with
  | nil =>
    rw [Store.log, List.append_nil]
    exact hlog
  | cons a actions ih =>
    rw [Store.log, ← List.append_assoc]
    apply ih (hs.act a) (leaves_act hP hs hlog (hactions a List.mem_cons_self))
    intro a' ha'
    exact hactions a' (List.mem_cons_of_mem a ha')

/-- **What every commit of a run shows has the property**, if another version does not lose it. -/
theorem Follows.shows (hstamped : ∀ d o v, P d o → P d (o.stamped v)) (hs : s.Follows log)
    (hlog : s.Leaves P log) : s.Fits (fun d c => c.Shows (P d)) log := by
  intro c hc t ht
  have hempty : AllHold (P t.definition) ([] : SortedMap Key Record) := by
    intro key r hr
    cases hr
  have hshows := (hs.tables c.table t ht).legal.shows (hstamped t.definition) hempty
    (hlog.ofTable ht)
  exact hshows c (List.mem_filter.mpr ⟨hc, beq_self_eq_true c.table⟩)

end Store

/-! ## Events -/

/-- The event shows a selected object that has the property. -/
def Selection.Presents (x : Selection) (d : Definition) (P : Object → Prop) (e : Event) : Prop :=
  x.selects d e.object = true ∧ P e.object

namespace Selection

variable {x : Selection} {d : Definition} {P : Object → Prop} {version : Version} {c : Change}
  {e : Event}

theorem presents_of_event? (hstamped : ∀ o v, P o → P (o.stamped v)) (hc : c.Shows P)
    (h : x.event? d version c = some e) : x.Presents d P e := by
  cases c with
  | created new =>
    rw [event?_created] at h
    split at h
    · next hnew =>
      cases h
      exact ⟨hnew, hc⟩
    · cases h
  | updated old new =>
    rw [event?_updated] at h
    split at h
    · next hnew =>
      cases h
      exact ⟨hnew, hc.2⟩
    · next hnew =>
      cases h
      exact ⟨hnew, hc.2⟩
    · next hold _ =>
      cases h
      exact ⟨(Cache.selects_stamped ..).trans hold, hstamped old version hc.1⟩
    · cases h
  | deleted tombstone =>
    rw [event?_deleted] at h
    split at h
    · next htombstone =>
      cases h
      exact ⟨htombstone, hc⟩
    · cases h

end Selection

/-- Every event that the watch holds shows a selected object that has the property. -/
def Watch.Presents (P : Definition → Object → Prop) (d : Definition) (w : Watch) : Prop :=
  ∀ e ∈ w.held, w.selection.Presents d (P d) e

namespace Watch

variable {P : Definition → Object → Prop}

theorem stable_presents (hstamped : ∀ d o v, P d o → P d (o.stamped v)) (d : Definition)
    (capacity : Nat) : Stable d capacity (Presents P d) fun c => c.Shows (P d) where
  close w reason hw := by
    intro e he
    rw [close_held] at he
    rw [close_selection]
    exact hw e he
  receive w now version c hc hw := by
    intro e he
    rw [receive_selection]
    rcases w.receive_held d capacity now version c with hheld | ⟨e', he', hheld⟩
    · exact hw e (hheld ▸ he)
    · rw [hheld] at he
      rcases List.mem_append.mp he with he | he
      · exact hw e he
      · obtain rfl := List.mem_singleton.mp he
        exact Selection.presents_of_event? (hstamped d) hc he'
  take w hw := by
    intro e he
    obtain ⟨hselection, hheld⟩ := w.take_keeps
    rw [hselection]
    exact hw e (hheld.subset he)

/-- What a consumer takes was held. -/
theorem mem_held_of_poll {w : Watch} {now : Nat} {e : Event} (h : (w.poll now).1 = .event e) :
    e ∈ w.held := by
  have htake {w : Watch} (h : w.take.1 = .event e) : e ∈ w.held := by
    cases hfinished : w.finished with
    | true =>
      rw [take_finished hfinished] at h
      cases h
    | false =>
      cases hheld : w.held with
      | cons e' events =>
        obtain ⟨hitem, -⟩ := take_held hfinished hheld
        cases hitem.symm.trans h
        exact List.mem_cons_self
      | nil =>
        obtain ⟨hinitial, hqueue⟩ := initial_eq_nil hheld
        cases hphase : w.phase with
        | live =>
          rw [take_pending hfinished hinitial hqueue hphase] at h
          cases h
        | ended reason =>
          rw [take_terminal hfinished hinitial hqueue hphase] at h
          cases reason <;> cases h
  have hexpire : (w.expire now).held = w.held := by
    unfold expire
    split
    · rfl
    · exact w.close_held _
  exact hexpire ▸ htake h

end Watch

/-- What a watch begins with shows selected objects that have the property. -/
theorem Table.presents_of_opening {t : Table} {P : Object → Prop}
    (hstamped : ∀ o v, P o → P (o.stamped v)) (hrecords : ∀ e ∈ t.records, P e.2.object)
    (hhistory : ∀ e ∈ t.history.changes, e.2.Shows P) {x : Selection} {since : Option Version}
    {events : List Event} (h : t.opening x since = .ok events) :
    ∀ e ∈ events, x.Presents t.definition P e := by
  obtain ⟨-, -, hinitial⟩ := Store.opening_eq_ok_iff.mp h
  intro e he
  cases since with
  | none =>
    obtain rfl := Except.ok.inj hinitial
    obtain ⟨r, hr, rfl⟩ := List.mem_map.mp ((Store.snapshot_perm t x).mem_iff.mp he)
    obtain ⟨hmem, hselects⟩ := List.mem_filter.mp hr
    exact ⟨hselects, hrecords r hmem⟩
  | some since =>
    simp only [initialEvents, History.replay?] at hinitial
    by_cases hold : since < t.history.oldest
    · rw [if_pos hold] at hinitial
      cases hinitial
    · rw [if_neg hold] at hinitial
      obtain rfl := Except.ok.inj hinitial
      obtain ⟨c, hc, hevent⟩ := List.mem_filterMap.mp he
      exact Selection.presents_of_event? hstamped (hhistory c (List.mem_filter.mp hc).1) hevent

/-! ## Everything a store holds -/

namespace Store

/-- Every object that the store holds has the property that belongs to its kind: in records, in
histories, and in the events of watches, which show what they select. -/
structure Holds (P : Definition → Object → Prop) (s : Store) : Prop where
  records : ∀ (i : Nat) (t : Table), s.tables[i]? = some t → AllHold (P t.definition) t.records
  history : ∀ (i : Nat) (t : Table), s.tables[i]? = some t →
    ∀ e ∈ t.history.changes, e.2.Shows (P t.definition)
  watches : s.EachWatch (Watch.Presents P)

variable {P : Definition → Object → Prop} {Brought : Object → Prop} {Timely : Moment → Prop}
  {s : Store} {log : List Commit}

theorem Follows.showsHistory (hs : s.Follows log)
    (hlog : s.Fits (fun d c => c.Shows (P d)) log) {i : Nat} {t : Table}
    (ht : s.tables[i]? = some t) : ∀ e ∈ t.history.changes, e.2.Shows (P t.definition) := by
  intro e he
  obtain ⟨dropped, hsplit, -, -⟩ := (hs.tables i t ht).retains
  have hmem : e ∈ (ofTable i log).map fun c => (c.version, c.change) := by
    rw [hsplit]
    exact List.mem_append_right _ he
  obtain ⟨c, hc, rfl⟩ := List.mem_map.mp hmem
  obtain ⟨hlogged, htable⟩ := List.mem_filter.mp hc
  exact hlog c hlogged t (by rwa [show c.table = i by simpa using htable])

theorem opens_presents (hstamped : ∀ d o v, P d o → P d (o.stamped v)) (hs : s.Follows log)
    (hlog : s.Leaves P log) : s.Opens (Watch.Presents P) := by
  intro i t scope m criteria since timeout events ht ho e he
  replace he : e ∈ events := by simpa [Watch.held, Focus.newWatch] using he
  apply Table.presents_of_opening (hstamped t.definition) ?_
    (hs.showsHistory (hs.shows hstamped hlog) ht) ho e he
  intro e he
  exact hs.allHold hlog ht e.1 e.2 (SortedMap.get?_of_mem (hs.tables i t ht).sorted he)

/-- **What every commit leaves and every watch presents has the property, after every run.** -/
theorem presents_run (hP : Object.Lasting P Brought Timely)
    (hstamped : ∀ d o v, P d o → P d (o.stamped v)) (hs : s.Follows log) (hlog : s.Leaves P log)
    (hwatches : s.EachWatch (Watch.Presents P)) {actions : List Action}
    (hactions : ∀ a ∈ actions, a.Brings Brought Timely) :
    (s.run actions).EachWatch (Watch.Presents P) := by
  induction actions generalizing s log with
  | nil => exact hwatches
  | cons a actions ih =>
    have hkinds := sameKinds_act hs a
    have hone := leaves_act hP hs hlog (hactions a List.mem_cons_self)
    have hshows := (hs.act a).shows hstamped hone
    apply ih (hs.act a) hone
    · apply hwatches.act hs (fun d => Watch.stable_presents hstamped d _)
        (opens_presents hstamped hs hlog)
      intro c hc t ht
      obtain ⟨t', ht'⟩ := hkinds.table_some ht
      rw [← hkinds.definition_eq ht ht']
      exact hshows c (List.mem_append_right _ hc) t' ht'
    · intro a' ha'
      exact hactions a' (List.mem_cons_of_mem a ha')

/-- **Every object that a store holds has the property, after every run.** -/
theorem holds_run (hP : Object.Lasting P Brought Timely)
    (hstamped : ∀ d o v, P d o → P d (o.stamped v)) (catalog : Catalog) (limits : WatchLimits)
    {actions : List Action} (hactions : ∀ a ∈ actions, a.Brings Brought Timely) :
    ((empty catalog limits).run actions).Holds P := by
  have hs := follows_reached catalog limits actions
  have hlog : ((empty catalog limits).run actions).Leaves P ((empty catalog limits).log actions) :=
    leaves_run hP (follows_empty catalog limits) (leaves_nil P _) hactions
  exact ⟨fun i t ht => hs.allHold hlog ht,
    fun i t ht => hs.showsHistory (hs.shows hstamped hlog) ht,
    presents_run hP hstamped (follows_empty catalog limits) (leaves_nil P _)
      (eachWatch_empty _ catalog limits) hactions⟩

/-! ### What a store gives away -/

/-- The objects that a call answers with have the property. -/
theorem Work.answers {f : Focus} {scope : Scope} {m : Moment}
    (hP : Object.Lasting P Brought Timely) (hstamped : ∀ d o v, P d o → P d (o.stamped v))
    (hsorted : SortedMap.Sorted f.table.records)
    (hall : AllHold (P f.table.definition) f.table.records) {w : Work}
    (hw : w.Brings Brought Timely m) {reply : Reply} (h : (w.serve scope m f).1 = .ok reply) :
    ∀ o ∈ reply.objects, P f.table.definition o := by
  cases w with
  | writeBack o read x => exact Reply.forall_object h fun _ => Focus.lasting_replace hP hall hw
  | request r =>
    cases r with
    | create o =>
      refine Reply.forall_object h fun new hnew => ?_
      obtain ⟨key, o', hd, rfl⟩ := Focus.create_eq_ok_iff.mp hnew
      exact hP.created f.version.next hw.1 hw.2 hd
    | get key =>
      refine Reply.forall_object h fun o ho => ?_
      obtain ⟨r, hr, rfl⟩ := map_eq_ok_iff.mp ho
      exact hall key r (Table.record_eq_ok_iff.mp hr).1
    | list criteria =>
      obtain ⟨l, hl, rfl⟩ := map_eq_ok_iff.mp h
      obtain ⟨-, rfl⟩ := list_eq_ok_iff.mp hl
      intro o ho
      obtain ⟨e, he, rfl⟩ := List.mem_map.mp ho
      exact hall e.1 e.2 (SortedMap.get?_of_mem hsorted (List.mem_filter.mp he).1)
    | watch criteria since timeout =>
      obtain ⟨_, -, rfl⟩ := map_eq_ok_iff.mp h
      intro o ho
      cases ho
    | update o expected subresource =>
      obtain ⟨x, -, hx⟩ := serve_update_ok h
      exact Reply.forall_object hx fun _ => Focus.lasting_replace hP hall hw
    | patch key subresource p =>
      obtain ⟨x, -, hx⟩ := serve_patch_ok h
      exact Reply.forall_object hx fun _ => Focus.lasting_patch hP hall
    | delete key precondition =>
      refine Reply.forall_object h fun tombstone ho => ?_
      obtain ⟨r, hd, rfl⟩ := Focus.delete_eq_ok_iff.mp ho
      obtain ⟨-, hget, -, -⟩ := Table.removal_eq_ok_iff.mp hd
      exact hstamped _ r.object _ (hall key r hget)
    | deleteCollection criteria =>
      obtain ⟨tombstones, ho, rfl⟩ := map_eq_ok_iff.mp h
      intro o hmem
      obtain ⟨e, he, v, rfl⟩ := Focus.mem_deleteCollection hsorted ho o hmem
      have hget := SortedMap.get?_of_mem hsorted (List.mem_filter.mp he).1
      exact hstamped _ e.2.object v (hall e.1 e.2 hget)

/-- **Every object that a store answers with has the property.** -/
theorem Holds.answered (hP : Object.Lasting P Brought Timely)
    (hstamped : ∀ d o v, P d o → P d (o.stamped v)) (hs : s.Follows log) (h : s.Holds P)
    {kind : String} {scope : Scope} {m : Moment} {w : Work} (hw : w.Brings Brought Timely m)
    {reply : Reply}
    (hanswer : (s.act (.call kind scope m w)).1 = .answer (.ok reply)) :
    ∃ i t, s.find kind = .ok i ∧ s.tables[i]? = some t ∧
      ∀ o ∈ reply.objects, P t.definition o := by
  obtain ⟨i, t, hfind, ht, hserve, -⟩ := act_answered hanswer
  exact ⟨i, t, hfind, ht, Work.answers (f := s.focus t) hP hstamped (hs.tables i t ht).sorted
    (h.records i t ht) hw hserve⟩

/-- **Every event that a consumer takes shows an object that has the property**, and that the watch
selects. -/
theorem Holds.taken (h : s.Holds P) {now : Nat} {handle : WatchHandle} {e : Event}
    (hpoll : (s.poll now handle).1 = .event e) :
    ∃ i t w, s.Watches i handle t w ∧ w.selection.Presents t.definition (P t.definition) e := by
  unfold poll at hpoll
  rcases onWatch_cases s handle (·.poll now handle.id) with ⟨heq, -⟩ | ⟨i, t, hi, ht, heq⟩
  · rw [heq] at hpoll
    cases hpoll
  · rw [heq] at hpoll
    cases hw : t.watch? handle.id with
    | none =>
      simp only [focus, Focus.poll, hw, Option.getD_some] at hpoll
      cases hpoll
    | some w =>
      simp only [focus, Focus.poll, hw, Option.getD_some] at hpoll
      exact ⟨i, t, w, ⟨hi, ht, hw⟩,
        h.watches i t ht w (List.mem_of_find?_eq_some hw) e (Watch.mem_held_of_poll hpoll)⟩

end Store

end ControlPlane
