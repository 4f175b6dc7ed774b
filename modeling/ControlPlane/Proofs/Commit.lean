import ControlPlane.SortedMap.Lemmas
import ControlPlane.Store.Table

/-!
# Commits and what they leave behind

A commit is a change with the table it happened in, the key it was about, and the version it got.
The records of a table are what its commits wrote, one after the other, and its history holds the
last of them. Neither depends on anything else.

* `Change.Fits`: the change is about what is there, and leaves an object in its place.
* `Legal`: every commit of a log fits the records that the commits before it wrote.
* `get?_replay`: a record is the last commit of its key.
* `History.Retains`: a history holds the end of a log, and its oldest version is where that begins.
-/

namespace ControlPlane

/-! ## Objects in their place -/

/-- The object lies under its own key, has the type of the kind, and carries a version. -/
structure Object.Placed (d : Definition) (key : Key) (version : Version) (o : Object) : Prop where
  key_eq : d.key o = .ok key
  types_eq : o.types = some d.typeMeta
  version_eq : o.metadata.resourceVersion = some version.text

/-- A key depends on the name and the namespace alone. -/
theorem Definition.key_congr (d : Definition) {o o' : Object}
    (hname : o.metadata.name = o'.metadata.name)
    (hns : o.metadata.ns = o'.metadata.ns) : d.key o = d.key o' := by
  unfold Definition.key Object.name
  rw [hname, hns]

@[simp] theorem Definition.key_stamped (d : Definition) (o : Object) (v : Version) :
    d.key (o.stamped v) = d.key o := d.key_congr rfl rfl

theorem Object.Placed.stamped {d : Definition} {key : Key} {v : Version} {o : Object}
    (h : o.Placed d key v) (v' : Version) : (o.stamped v').Placed d key v' where
  key_eq := by rw [Definition.key_stamped, h.key_eq]
  types_eq := h.types_eq
  version_eq := rfl

/-- Every record lies in its place. -/
def Filed (d : Definition) (records : SortedMap Key Record) : Prop :=
  ∀ key r, SortedMap.get? records key = some r → r.object.Placed d key r.version

theorem filed_nil (d : Definition) : Filed d [] := by
  intro key r h
  simp at h

theorem Filed.insert {d : Definition} {records : SortedMap Key Record} (h : Filed d records)
    {key : Key} {r : Record} (hr : r.object.Placed d key r.version) :
    Filed d (SortedMap.insert records key r) := by
  intro key' r' h'
  by_cases hk : key' = key
  · subst hk
    rw [SortedMap.get?_insert_self] at h'
    obtain rfl := Option.some.inj h'
    exact hr
  · rw [SortedMap.get?_insert_of_ne _ _ hk] at h'
    exact h key' r' h'

theorem Filed.erase {d : Definition} {records : SortedMap Key Record} (h : Filed d records)
    (key : Key) : Filed d (SortedMap.erase records key) := by
  intro key' r' h'
  by_cases hk : key' = key
  · subst hk
    rw [SortedMap.get?_erase_self] at h'
    cases h'
  · rw [SortedMap.get?_erase_of_ne _ hk] at h'
    exact h key' r' h'

/-! ## Changes -/

namespace Change

/-- The object that a change leaves: the new one, or the tombstone. -/
def object : Change → Object
  | created new => new
  | updated _ new => new
  | deleted tombstone => tombstone

/-- The change is about what the records hold at a key, and leaves an object in its place. -/
inductive Fits (d : Definition) (records : SortedMap Key Record) (version : Version) (key : Key) :
    Change → Prop
  | created {new : Object} : SortedMap.get? records key = none → new.Placed d key version →
      Fits d records version key (.created new)
  | updated {r : Record} {new : Object} : SortedMap.get? records key = some r →
      new.Placed d key version → Fits d records version key (.updated r.object new)
  | deleted {r : Record} : SortedMap.get? records key = some r →
      (r.object.stamped version).Placed d key version →
      Fits d records version key (.deleted (r.object.stamped version))

theorem Fits.placed {d : Definition} {records : SortedMap Key Record} {version : Version}
    {key : Key} {c : Change} (h : c.Fits d records version key) :
    c.object.Placed d key version := by
  cases h with
  | created _ hp => exact hp
  | updated _ hp => exact hp
  | deleted _ hp => exact hp

end Change

/-! ## Commits -/

/-- A committed change: the position of its table, the key it is about, and its version. -/
structure Commit where
  table : Nat
  key : Key
  version : Version
  change : Change

namespace Commit

/-- The records after a commit. -/
def write (records : SortedMap Key Record) (c : Commit) : SortedMap Key Record :=
  match c.change with
  | .created new => SortedMap.insert records c.key ⟨new, c.version⟩
  | .updated _ new => SortedMap.insert records c.key ⟨new, c.version⟩
  | .deleted _ => SortedMap.erase records c.key

/-- The record that a commit leaves at its key. -/
def record? (c : Commit) : Option Record :=
  match c.change with
  | .created new => some ⟨new, c.version⟩
  | .updated _ new => some ⟨new, c.version⟩
  | .deleted _ => none

/-- The commit fits the records. -/
abbrev Fits (d : Definition) (records : SortedMap Key Record) (c : Commit) : Prop :=
  c.change.Fits d records c.version c.key

/-- The event by which a watcher sees a commit, if it sees it. -/
def event? (x : Selection) (d : Definition) (c : Commit) : Option Event :=
  x.event? d c.version c.change

@[simp] theorem get?_write_self (records : SortedMap Key Record) (c : Commit) :
    SortedMap.get? (c.write records) c.key = c.record? := by
  unfold write record?
  cases c.change <;> simp

theorem get?_write_of_ne (records : SortedMap Key Record) (c : Commit) {key : Key}
    (h : key ≠ c.key) : SortedMap.get? (c.write records) key = SortedMap.get? records key := by
  unfold write
  cases c.change with
  | created new => exact SortedMap.get?_insert_of_ne _ _ h
  | updated old new => exact SortedMap.get?_insert_of_ne _ _ h
  | deleted tombstone => exact SortedMap.get?_erase_of_ne _ h

theorem sorted_write {records : SortedMap Key Record} (h : SortedMap.Sorted records) (c : Commit) :
    SortedMap.Sorted (c.write records) := by
  unfold write
  cases c.change with
  | created new => exact SortedMap.sorted_insert h _ _
  | updated old new => exact SortedMap.sorted_insert h _ _
  | deleted tombstone => exact SortedMap.sorted_erase h _

theorem filed_write {d : Definition} {records : SortedMap Key Record} (h : Filed d records)
    {c : Commit} (hc : c.Fits d records) : Filed d (c.write records) := by
  unfold write
  have hp := Change.Fits.placed hc
  cases hchange : c.change with
  | created new => exact h.insert (by rwa [hchange] at hp)
  | updated old new => exact h.insert (by rwa [hchange] at hp)
  | deleted tombstone => exact h.erase _

end Commit

/-! ## Logs -/

/-- The records after some commits, in order. -/
def replay (records : SortedMap Key Record) (log : List Commit) : SortedMap Key Record :=
  log.foldl (fun records c => c.write records) records

/-- Every commit fits the records that the commits before it leave. -/
def Legal (d : Definition) : SortedMap Key Record → List Commit → Prop
  | _, [] => True
  | records, c :: log => c.Fits d records ∧ Legal d (c.write records) log

/-- The commits of one table. -/
def ofTable (i : Nat) (log : List Commit) : List Commit := log.filter (·.table == i)

/-- The events by which a watcher sees some commits. -/
def seen (x : Selection) (d : Definition) (log : List Commit) : List Event :=
  log.filterMap (·.event? x d)

@[simp] theorem replay_nil (records : SortedMap Key Record) : replay records [] = records := rfl

@[simp] theorem replay_cons (records : SortedMap Key Record) (c : Commit) (log : List Commit) :
    replay records (c :: log) = replay (c.write records) log := rfl

theorem replay_append (records : SortedMap Key Record) (log log' : List Commit) :
    replay records (log ++ log') = replay (replay records log) log' := List.foldl_append ..

theorem legal_append {d : Definition} {records : SortedMap Key Record} {log log' : List Commit} :
    Legal d records (log ++ log') ↔ Legal d records log ∧ Legal d (replay records log) log' := by
  induction log generalizing records with
  | nil => simp [Legal]
  | cons c log ih => simp only [List.cons_append, Legal, ih, replay_cons, and_assoc]

@[simp] theorem ofTable_append (i : Nat) (log log' : List Commit) :
    ofTable i (log ++ log') = ofTable i log ++ ofTable i log' := List.filter_append ..

@[simp] theorem seen_append (x : Selection) (d : Definition) (log log' : List Commit) :
    seen x d (log ++ log') = seen x d log ++ seen x d log' := List.filterMap_append

theorem sorted_replay {records : SortedMap Key Record} (h : SortedMap.Sorted records)
    (log : List Commit) : SortedMap.Sorted (replay records log) := by
  induction log generalizing records with
  | nil => exact h
  | cons c log ih => exact ih (c.sorted_write h)

theorem filed_replay {d : Definition} {records : SortedMap Key Record} (h : Filed d records)
    {log : List Commit} (hlog : Legal d records log) : Filed d (replay records log) := by
  induction log generalizing records with
  | nil => exact h
  | cons c log ih => exact ih (Commit.filed_write h hlog.1) hlog.2

/-- What a legal log leaves in its commits is in its place. -/
theorem Legal.placed {d : Definition} {records : SortedMap Key Record} {log : List Commit}
    (h : Legal d records log) : ∀ c ∈ log, c.change.object.Placed d c.key c.version := by
  induction log generalizing records with
  | nil =>
    intro c hc
    cases hc
  | cons c log ih =>
    intro c' hc'
    rcases List.mem_cons.mp hc' with rfl | hc'
    · exact h.1.placed
    · exact ih h.2 c' hc'

/-- **A record is the last commit of its key.** -/
theorem get?_replay (records : SortedMap Key Record) (log : List Commit) (key : Key) :
    SortedMap.get? (replay records log) key =
      match (log.filter (·.key == key)).getLast? with
      | some c => c.record?
      | none => SortedMap.get? records key := by
  induction log generalizing records with
  | nil => rfl
  | cons c log ih =>
    rw [replay_cons, ih]
    by_cases hk : c.key = key
    · subst hk
      rw [List.filter_cons_of_pos (by simp), List.getLast?_cons]
      cases (log.filter (·.key == c.key)).getLast? with
      | none => simp
      | some c' => rfl
    · rw [List.filter_cons_of_neg (by simpa using hk),
        Commit.get?_write_of_ne _ _ (fun h => hk h.symm)]

/-! ## Histories -/

namespace History

/-- The history holds the end of the entries, as many as it may, and its oldest version is that of
the last entry it dropped. -/
def Retains (h : History) (entries : List (Version × Change)) : Prop :=
  ∃ dropped, entries = dropped ++ h.changes ∧
    h.oldest = ((dropped.getLast?).map (·.1)).getD 0 ∧
    h.changes.length = min h.capacity entries.length

theorem retains_empty (capacity : Nat) : (empty capacity).Retains [] :=
  ⟨[], rfl, rfl, by simp [empty]⟩

theorem Retains.push {h : History} {entries : List (Version × Change)} (hr : h.Retains entries)
    (version : Version) (change : Change) :
    (h.push version change).Retains (entries ++ [(version, change)]) := by
  obtain ⟨dropped, rfl, hold, hlen⟩ := hr
  let changes := h.changes ++ [(version, change)]
  let excess := changes.length - h.capacity
  refine ⟨dropped ++ changes.take excess, ?_, ?_, ?_⟩
  · simp only [History.push, List.append_assoc, changes, excess, List.take_append_drop]
  · simp only [History.push, List.getLast?_append, changes, excess]
    cases ((h.changes ++ [(version, change)]).take
      ((h.changes ++ [(version, change)]).length - h.capacity)).getLast? with
    | none => simpa using hold
    | some e => rfl
  · simp only [History.push, List.length_drop, List.length_append, List.length_singleton] at hlen ⊢
    omega

/-- **A replay is what a selection sees of the entries after a version**, unless one of those was
dropped. -/
theorem Retains.replay?_eq {h : History} {log : List Commit}
    (hr : h.Retains (log.map fun c => (c.version, c.change)))
    (hlog : log.Pairwise fun a b => a.version < b.version) (d : Definition) (x : Selection)
    {since : Version} (hsince : h.oldest ≤ since) :
    h.replay? d x since = some (seen x d (log.filter fun c => since < c.version)) := by
  obtain ⟨dropped, hsplit, hold, -⟩ := hr
  obtain ⟨early, late, rfl, hearly, hlate⟩ := List.map_eq_append_iff.mp hsplit
  have hgone : early.filter (fun c => since < c.version) = [] := by
    refine List.filter_eq_nil_iff.mpr fun c hc => ?_
    have hle : c.version ≤ h.oldest := by
      rw [hold, ← hearly, List.getLast?_map]
      cases hlast : early.getLast? with
      | none => simp_all
      | some last =>
        have hp := (List.pairwise_append.mp hlog).1
        obtain ⟨init, rfl⟩ := List.getLast?_eq_some_iff.mp hlast
        rcases List.mem_append.mp hc with hc | hc
        · exact Nat.le_of_lt ((List.pairwise_append.mp hp).2.2 c hc last (by simp))
        · simp_all
    simp only [decide_eq_true_eq]
    exact Nat.not_lt.mpr (Nat.le_trans hle hsince)
  rw [replay?, if_neg (Nat.not_lt.mpr hsince), List.filter_append, hgone, List.nil_append, ← hlate,
    List.filter_map, List.filterMap_map]
  rfl

end History

end ControlPlane
