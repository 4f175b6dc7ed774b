import ControlPlane.Proofs.Ledger
import Mathlib.Data.List.Nodup

/-!
# The discipline of versions

Every mutation of a store, of whatever kind and through whatever view, takes the next number of one
sequence, and stamps the object it leaves with it. So a version tells the mutation, and a record
tells the version of the last mutation of its key.

* `Store.Disciplined`: what holds between a store and its log.
* `Store.act_refused`: a call that is refused leaves the store as it was.
* `Store.disciplined_run`: every run of a store that was empty is disciplined.
-/

namespace ControlPlane

/-- The items of a listing are in the strict order of their keys, and none is newer than the
listing. -/
structure Listing.Ordered (d : Definition) (l : Listing) : Prop where
  ascending : l.items.Pairwise fun a b =>
    ∃ key key', d.key a = .ok key ∧ d.key b = .ok key' ∧ compare key key' = .lt
  current : ∀ o ∈ l.items, ∃ v : Version, o.metadata.resourceVersion = some v.text ∧ v ≤ l.version

/-- The commits of one key. -/
def ofKey (i : Nat) (key : Key) (log : List Commit) : List Commit :=
  (ofTable i log).filter (·.key == key)

theorem ofKey_append (i : Nat) (key : Key) (log log' : List Commit) :
    ofKey i key (log ++ log') = ofKey i key log ++ ofKey i key log' := by
  rw [ofKey, ofTable_append, List.filter_append]
  rfl

theorem mem_ofKey {i : Nat} {key : Key} {log : List Commit} {c : Commit} :
    c ∈ ofKey i key log ↔ c ∈ log ∧ c.table = i ∧ c.key = key := by
  simp only [ofKey, ofTable, List.mem_filter, beq_iff_eq, and_assoc]

/-- The last commit of a key of a table. -/
def lastOf (i : Nat) (key : Key) (log : List Commit) : Option Commit :=
  ((ofTable i log).filter (·.key == key)).getLast?

theorem lastOf_some {i : Nat} {key : Key} {log : List Commit} {c : Commit}
    (h : lastOf i key log = some c) : c ∈ log ∧ c.table = i ∧ c.key = key :=
  mem_ofKey.mp (List.mem_of_getLast? h)

namespace Store

variable {s : Store} {log : List Commit}

/-! ## Answers -/

theorem act_answered {kind : String} {scope : Scope} {m : Moment} {w : Work} {reply : Reply}
    (h : (s.act (.call kind scope m w)).1 = .answer (.ok reply)) :
    ∃ i t, s.find kind = .ok i ∧ s.tables[i]? = some t ∧
      (w.serve scope m (s.focus t)).1 = .ok reply ∧
      (s.act (.call kind scope m w)).2 = s.absorb i (w.serve scope m (s.focus t)).2 := by
  rcases onKind_cases s kind (w.serve scope m) with ⟨e, hkind⟩ | ⟨i, t, hfind, ht, hkind⟩
  · simp only [act, hkind] at h
    cases h
  · refine ⟨i, t, hfind, ht, ?_, congrArg Prod.snd hkind⟩
    simp only [act, hkind] at h
    exact Outcome.answer.inj h

/-- **A call that is refused leaves the store as it was.** -/
theorem act_refused (hs : s.Follows log) {kind : String} {scope : Scope} {m : Moment} {w : Work}
    {e : Error} (h : (s.act (.call kind scope m w)).1 = .answer (.error e)) :
    (s.act (.call kind scope m w)).2 = s := by
  obtain ⟨result, hanswer, hcalled⟩ := call_cases hs.filed kind scope m w
  obtain rfl := Outcome.answer.inj (hanswer.symm.trans h)
  exact hcalled.refused

theorem list_eq_ok_iff {f : Focus} {scope : Scope} {criteria : Criteria} {l : Listing} :
    f.list scope criteria = .ok l ↔
      f.table.requireDeclared criteria = .ok () ∧
      l = ⟨(f.table.select ⟨criteria, scope⟩).map (·.2.object), f.version⟩ := by
  simp only [Focus.list, bind_eq_ok_iff, pure_eq_ok_iff]
  constructor
  · rintro ⟨_, hdeclared, rfl⟩
    exact ⟨hdeclared, rfl⟩
  · rintro ⟨hdeclared, rfl⟩
    exact ⟨(), hdeclared, rfl⟩

theorem act_listed {kind : String} {scope : Scope} {m : Moment} {criteria : Criteria} {l : Listing}
    (h : (s.act (.call kind scope m (.request (.list criteria)))).1 = .answer (.ok (.listing l))) :
    ∃ i t, s.find kind = .ok i ∧ s.tables[i]? = some t ∧
      t.requireDeclared criteria = .ok () ∧
      l = ⟨(t.select ⟨criteria, scope⟩).map (·.2.object), s.version⟩ := by
  obtain ⟨i, t, hfind, ht, hserve, -⟩ := act_answered h
  simp only [Work.serve, serve, map_eq_ok_iff] at hserve
  obtain ⟨l', hlist, hl⟩ := hserve
  obtain rfl := Reply.listing.inj hl
  obtain ⟨hdeclared, rfl⟩ := list_eq_ok_iff.mp hlist
  exact ⟨i, t, hfind, ht, hdeclared, rfl⟩

/-! ## Records and their commits -/

theorem Follows.get?_eq (hs : s.Follows log) {i : Nat} {t : Table} {key : Key} {r : Record}
    (ht : s.tables[i]? = some t) (hr : (key, r) ∈ t.records) :
    SortedMap.get? t.records key = some r := SortedMap.get?_of_mem (hs.tables i t ht).sorted hr

/-- A record is what the last commit of its key left. -/
theorem Follows.lastOf_eq (hs : s.Follows log) {i : Nat} {t : Table} {key : Key} {r : Record}
    (ht : s.tables[i]? = some t) (hr : (key, r) ∈ t.records) :
    ∃ c, lastOf i key log = some c ∧ c.record? = some r := by
  have hget := hs.get?_eq ht hr
  rw [(hs.tables i t ht).records_eq, get?_replay] at hget
  rw [lastOf]
  cases hlast : ((ofTable i log).filter (·.key == key)).getLast? with
  | none => simp [hlast] at hget
  | some c => exact ⟨c, rfl, by simpa only [hlast] using hget⟩

/-- After later commits, a record is what the last of them at its key left, or was there before. -/
theorem Follows.get?_later (hs : s.Follows log) {s' : Store} {later : List Commit}
    (hs' : s'.Follows (log ++ later)) {i : Nat} {t t' : Table} (ht : s.tables[i]? = some t)
    (ht' : s'.tables[i]? = some t') (key : Key) :
    SortedMap.get? t'.records key =
      match (ofKey i key later).getLast? with
      | some c => c.record?
      | none => SortedMap.get? t.records key := by
  rw [(hs'.tables i t' ht').records_eq, ofTable_append, replay_append,
    ← (hs.tables i t ht).records_eq, get?_replay]
  rfl

theorem version_of_record? {c : Commit} {r : Record} (h : c.record? = some r) :
    c.version = r.version ∧ c.change.object = r.object := by
  unfold Commit.record? at h
  split at h
  · next hc => cases h; exact ⟨rfl, by rw [hc]; rfl⟩
  · next hc => cases h; exact ⟨rfl, by rw [hc]; rfl⟩
  · cases h

theorem Follows.version_le (hs : s.Follows log) {c : Commit} (hc : c ∈ log) :
    c.version ≤ s.version := by
  have hmem : c.version ∈ List.range' 1 s.version := hs.versions_eq ▸ List.mem_map_of_mem hc
  have hlt := (List.mem_range'_1.mp hmem).2
  rw [Nat.add_comm] at hlt
  exact Nat.le_of_lt_succ hlt

/-- A version tells the commit. -/
theorem Follows.eq_of_version (hs : s.Follows log) {c c' : Commit} (hc : c ∈ log) (hc' : c' ∈ log)
    (h : c.version = c'.version) : c = c' := by
  have hnodup : (log.map (·.version)).Nodup := hs.versions_eq ▸ List.nodup_range'
  exact List.inj_on_of_nodup_map hnodup hc hc' h

/-- A version tells the place of a record. -/
theorem Follows.place_of_version (hs : s.Follows log) {i j : Nat} {t t' : Table} {key key' : Key}
    {r r' : Record} (ht : s.tables[i]? = some t) (ht' : s.tables[j]? = some t')
    (hr : (key, r) ∈ t.records) (hr' : (key', r') ∈ t'.records)
    (hversion : r.version = r'.version) :
    i = j ∧ key = key' := by
  obtain ⟨c, hlast, hc⟩ := hs.lastOf_eq ht hr
  obtain ⟨c', hlast', hc'⟩ := hs.lastOf_eq ht' hr'
  obtain ⟨hmem, htable, hkey⟩ := lastOf_some hlast
  obtain ⟨hmem', htable', hkey'⟩ := lastOf_some hlast'
  -- Equal versions are one commit, and that has one table and one key.
  obtain rfl := hs.eq_of_version hmem hmem'
    ((version_of_record? hc).1.trans (hversion.trans (version_of_record? hc').1.symm))
  exact ⟨htable.symm.trans htable', hkey.symm.trans hkey'⟩

/-- A record is not newer than the store. -/
theorem Follows.record_version_le (hs : s.Follows log) {i : Nat} {t : Table} {key : Key}
    {r : Record} (ht : s.tables[i]? = some t) (hr : (key, r) ∈ t.records) :
    r.version ≤ s.version := by
  obtain ⟨c, hlast, hc⟩ := hs.lastOf_eq ht hr
  rw [← (version_of_record? hc).1]
  exact hs.version_le (lastOf_some hlast).1

/-! ## The discipline -/

/-- What holds between a store and the log of its mutations. -/
structure Disciplined (s : Store) (log : List Commit) : Prop where
  /-- The versions of the mutations of all kinds are one, two, and so on up to the current one. -/
  versions : log.map (·.version) = List.range' 1 s.version
  /-- Every mutation left an object under its key, with the type of the kind and its own version. -/
  stamped : ∀ c ∈ log, ∃ t, s.tables[c.table]? = some t ∧
    c.change.object.Placed t.definition c.key c.version
  /-- Every record is what the last mutation of its key left, with the version of that. -/
  last : ∀ (i : Nat) (t : Table) (key : Key) (r : Record), s.tables[i]? = some t →
    (key, r) ∈ t.records →
    ∃ c, lastOf i key log = some c ∧ c.version = r.version ∧ c.change.object = r.object
  /-- Every record lies under the key of its object, which has the type of the kind and carries the
  version of the record. -/
  placed : ∀ (i : Nat) (t : Table) (key : Key) (r : Record), s.tables[i]? = some t →
    (key, r) ∈ t.records → r.object.Placed t.definition key r.version
  /-- No two records of any kinds share a version. -/
  distinct : ∀ (i j : Nat) (t t' : Table) (key key' : Key) (r r' : Record),
    s.tables[i]? = some t → s.tables[j]? = some t' → (key, r) ∈ t.records →
    (key', r') ∈ t'.records → r.version = r'.version → i = j ∧ key = key'
  /-- The items of every list are in order, and none is newer than the list. -/
  listed : ∀ kind scope m criteria l,
    (s.act (.call kind scope m (.request (.list criteria)))).1 = .answer (.ok (.listing l)) →
    ∃ i t, s.find kind = .ok i ∧ s.tables[i]? = some t ∧ l.Ordered t.definition
  /-- A call that is refused changes nothing. -/
  refused : ∀ kind scope m w e, (s.act (.call kind scope m w)).1 = .answer (.error e) →
    (s.act (.call kind scope m w)).2 = s

theorem Follows.ordered (hs : s.Follows log) {i : Nat} {t : Table} (ht : s.tables[i]? = some t)
    (x : Selection) :
    (⟨(t.select x).map (·.2.object), s.version⟩ : Listing).Ordered t.definition := by
  have hrecord (e : Key × Record) (he : e ∈ t.select x) :
      e ∈ t.records ∧ e.2.object.Placed t.definition e.1 e.2.version := by
    have hmem := (List.mem_filter.mp he).1
    exact ⟨hmem, (hs.tables i t ht).filed e.1 e.2 (hs.get?_eq ht hmem)⟩
  constructor
  · rw [List.pairwise_map]
    have hsorted : (t.select x).Pairwise fun a b => compare a.1 b.1 = .lt :=
      (hs.tables i t ht).sorted.filter _
    refine hsorted.imp_of_mem fun {a b} ha hb hlt => ?_
    exact ⟨a.1, b.1, (hrecord a ha).2.key_eq, (hrecord b hb).2.key_eq, hlt⟩
  · intro o ho
    obtain ⟨e, he, rfl⟩ := List.mem_map.mp ho
    obtain ⟨hmem, hplaced⟩ := hrecord e he
    exact ⟨e.2.version, hplaced.version_eq, hs.record_version_le ht hmem⟩

theorem Follows.disciplined (hs : s.Follows log) : s.Disciplined log where
  versions := hs.versions_eq
  stamped c hc := by
    have ht := List.getElem?_eq_getElem (hs.known c hc)
    exact ⟨_, ht, (hs.tables _ _ ht).legal.placed c (List.mem_filter.mpr ⟨hc, by simp⟩)⟩
  last i t key r ht hr := by
    obtain ⟨c, hlast, hc⟩ := hs.lastOf_eq ht hr
    exact ⟨c, hlast, version_of_record? hc⟩
  placed i t key r ht hr := (hs.tables i t ht).filed key r (hs.get?_eq ht hr)
  distinct i j t t' key key' r r' ht ht' hr hr' := hs.place_of_version ht ht' hr hr'
  listed kind scope m criteria l h := by
    obtain ⟨i, t, hfind, ht, -, rfl⟩ := act_listed h
    exact ⟨i, t, hfind, ht, hs.ordered ht _⟩
  refused kind scope m w e h := act_refused hs h

/-- **Every run of a store that was empty is disciplined.** -/
theorem disciplined_run (catalog : Catalog) (limits : WatchLimits) (actions : List Action) :
    ((empty catalog limits).run actions).Disciplined ((empty catalog limits).log actions) :=
  (follows_reached catalog limits actions).disciplined

end Store

end ControlPlane
