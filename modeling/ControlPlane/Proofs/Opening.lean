import ControlPlane.Proofs.Feed

/-!
# What a watch begins with

A watch that resumes from a version begins with what it sees of the commits after it, and any other
watch with what is there. Both come in the order of their versions, and every later commit has a
later version.

* `Store.act_opened`: a watch that was opened is one of the store.
* `Store.Follows.resumed`: a watch that resumes begins with what it missed.
* `Store.Follows.ascending`: what a watch begins with and what it sees later ascend in version.
-/

namespace ControlPlane

/-! ## Versions of what is seen -/

section Seen

variable {x : Selection} {d : Definition} {log : List Commit}

theorem seen_pairwise (h : log.Pairwise fun a b => a.version < b.version) :
    (seen x d log).Pairwise fun a b => a.version < b.version := by
  refine List.pairwise_filterMap.mpr (h.imp fun {a b} hlt e he e' he' => ?_)
  rw [Selection.version_of_event? he, Selection.version_of_event? he']
  exact hlt

theorem version_of_mem_seen {e : Event} (h : e ∈ seen x d log) :
    ∃ c ∈ log, c.version = e.version := by
  obtain ⟨c, hc, he⟩ := List.mem_filterMap.mp h
  exact ⟨c, hc, (Selection.version_of_event? he).symm⟩

end Seen

theorem History.replay?_eq_none_iff {h : History} {d : Definition} {x : Selection}
    {since : Version} : h.replay? d x since = none ↔ since < h.oldest := by
  unfold replay?
  split
  · next hlt => simp [hlt]
  · next hle => simp [hle]

namespace Store

variable {s : Store} {log : List Commit} {i : Nat} {t : Table}

theorem Follows.length_eq (hs : s.Follows log) : log.length = s.version := by
  have hlength := congrArg List.length hs.versions_eq
  simpa using hlength

theorem Follows.pairwise (hs : s.Follows log) : log.Pairwise fun a b => a.version < b.version := by
  have hsorted : (log.map (·.version)).Pairwise (· < ·) := by
    rw [hs.versions_eq]
    exact List.pairwise_lt_range'
  exact List.pairwise_map.mp hsorted

/-- Whatever is committed later has a later version. -/
theorem Follows.version_lt (hs : s.Follows log) {s' : Store} {later : List Commit}
    (hs' : s'.Follows (log ++ later)) {c : Commit} (hc : c ∈ later) : s.version < c.version := by
  have hversions := hs'.versions_eq
  rw [List.map_append, hs.versions_eq, ← hs'.length_eq, List.length_append, hs.length_eq,
    ← List.range'_append_1] at hversions
  have hmem : c.version ∈ List.range' (1 + s.version) later.length :=
    List.append_cancel_left hversions ▸ List.mem_map_of_mem hc
  exact Nat.lt_of_lt_of_le (by omega) (List.mem_range'_1.mp hmem).1

/-! ## What is there -/

theorem snapshot_perm (t : Table) (x : Selection) :
    (t.snapshot x).Perm ((t.select x).map fun e => ⟨.added, e.2.object, e.2.version⟩) :=
  List.mergeSort_perm _ _

theorem Follows.snapshot_pairwise (hs : s.Follows log) (ht : s.tables[i]? = some t)
    (x : Selection) :
    (t.snapshot x).Pairwise fun a b => a.version < b.version := by
  have hsorted : (t.snapshot x).Pairwise fun a b => decide (a.version ≤ b.version) = true :=
    List.pairwise_mergeSort (fun a b c hab hbc => by
      simp only [decide_eq_true_eq] at hab hbc ⊢
      exact Nat.le_trans hab hbc) (fun a b => by
      simpa using Nat.le_total a.version b.version) _
  have hdistinct : (t.snapshot x).Pairwise fun a b => a.version ≠ b.version := by
    refine ((snapshot_perm t x).pairwise_iff fun h => h.symm).mpr (List.pairwise_map.mpr ?_)
    have hkeys : (t.select x).Pairwise fun a b => compare a.1 b.1 = .lt :=
      (hs.tables i t ht).sorted.filter _
    refine hkeys.imp_of_mem fun {a b} ha hb hlt hversion => ?_
    have hkey := (hs.place_of_version ht ht (List.mem_filter.mp ha).1 (List.mem_filter.mp hb).1
      hversion).2
    have hself : compare b.1 b.1 = .eq := Std.ReflCmp.compare_self
    rw [hkey, hself] at hlt
    cases hlt
  refine (hsorted.and hdistinct).imp fun {a b} hab => ?_
  exact Nat.lt_of_le_of_ne (by simpa using hab.1) hab.2

theorem Follows.snapshot_le (hs : s.Follows log) (ht : s.tables[i]? = some t) {x : Selection}
    {e : Event} (he : e ∈ t.snapshot x) : e.version ≤ s.version := by
  obtain ⟨r, hr, rfl⟩ := List.mem_map.mp ((snapshot_perm t x).mem_iff.mp he)
  exact hs.record_version_le ht (List.mem_filter.mp hr).1

/-! ## What was missed -/

theorem opening_eq_ok_iff {x : Selection} {since : Option Version} {events : List Event} :
    t.opening x since = .ok events ↔
      t.requireDeclared x.criteria = .ok () ∧ t.stopped = false ∧
      t.initialEvents x since = .ok events := by
  simp only [Table.opening, bind_eq_ok_iff, Table.requireRunning_eq_ok_iff]
  constructor
  · rintro ⟨_, hdeclared, _, hrun, h⟩
    exact ⟨hdeclared, hrun, h⟩
  · rintro ⟨hdeclared, hrun, h⟩
    exact ⟨(), hdeclared, (), hrun, h⟩

/-- Once its checks are passed, a watch that resumes is refused if it lies below the oldest version,
and opened otherwise. -/
theorem opening_since {x : Selection} (hdeclared : t.requireDeclared x.criteria = .ok ())
    (hrun : t.stopped = false) (since : Version) :
    (since < t.history.oldest ∧
      t.opening x (some since) = .error (.gone t.name since t.history.oldest)) ∨
    (t.history.oldest ≤ since ∧ ∃ events, t.opening x (some since) = .ok events) := by
  have hopening : t.opening x (some since) = t.initialEvents x (some since) := by
    rw [Table.opening, hdeclared, Table.requireRunning, hrun]
    rfl
  rw [hopening, Table.initialEvents]
  cases hreplay : t.history.replay? t.definition x since with
  | none => exact Or.inl ⟨History.replay?_eq_none_iff.mp hreplay, rfl⟩
  | some events =>
    refine Or.inr ⟨Nat.le_of_not_lt fun hlt => ?_, events, rfl⟩
    rw [History.replay?_eq_none_iff.mpr hlt] at hreplay
    cases hreplay

/-- **A watch that resumes begins with what it missed.** -/
theorem Follows.resumed (hs : s.Follows log) (ht : s.tables[i]? = some t) {x : Selection}
    {since : Version} {events : List Event} (h : t.initialEvents x (some since) = .ok events) :
    events = seen x t.definition ((ofTable i log).filter fun c => since < c.version) := by
  have hpairwise : (ofTable i log).Pairwise fun a b => a.version < b.version :=
    hs.pairwise.filter _
  simp only [Table.initialEvents] at h
  rcases Nat.lt_or_ge since t.history.oldest with hlt | hle
  · rw [History.replay?, if_pos hlt] at h
    cases h
  · rw [(hs.tables i t ht).retains.replay?_eq hpairwise t.definition x hle] at h
    exact (Except.ok.inj h).symm

/-- **What a watch begins with and what it sees later ascend in version.** -/
theorem Follows.ascending (hs : s.Follows log) (ht : s.tables[i]? = some t) {x : Selection}
    {since : Option Version} {events : List Event} (h : t.initialEvents x since = .ok events)
    {s' : Store} {later : List Commit} (hs' : s'.Follows (log ++ later)) :
    (events ++ seen x t.definition (ofTable i later)).Pairwise
      fun a b => a.version < b.version := by
  cases since with
  | some since =>
    rw [hs.resumed ht h, ← seen_append]
    refine seen_pairwise (hs'.pairwise.sublist ?_)
    refine List.Sublist.append ?_ List.filter_sublist
    exact List.filter_sublist.trans List.filter_sublist
  | none =>
    obtain rfl := Except.ok.inj h
    have hlater : (ofTable i later).Pairwise fun a b => a.version < b.version :=
      (List.pairwise_append.mp hs'.pairwise).2.1.filter _
    refine List.pairwise_append.mpr ⟨hs.snapshot_pairwise ht x, seen_pairwise hlater, ?_⟩
    intro e he e' he'
    obtain ⟨c, hc, hversion⟩ := version_of_mem_seen he'
    have hlt := hs.version_lt hs' (List.mem_filter.mp hc).1
    rw [hversion] at hlt
    exact Nat.lt_of_le_of_lt (hs.snapshot_le ht he) hlt

/-! ## Watches that were opened -/

theorem find_eq_ok {kind : String} (h : s.find kind = .ok i) :
    ∃ d, s.catalog.lookup kind = .ok d ∧ s.position? d.fullName = some i := by
  simp only [find, bind_eq_ok_iff] at h
  obtain ⟨d, hd, h⟩ := h
  refine ⟨d, hd, ?_⟩
  cases hi : s.position? d.fullName with
  | none =>
    rw [hi] at h
    cases h
  | some j =>
    rw [hi] at h
    rw [pure_eq_ok_iff.mp h]

theorem position_of_find {kind : String} (h : s.find kind = .ok i) (ht : s.tables[i]? = some t) :
    s.position? t.definition.fullName = some i := by
  obtain ⟨d, -, hi⟩ := find_eq_ok h
  rw [fullName_of_position hi ht]
  exact hi

/-- A watch is answered as its table opens it. -/
theorem answer_watch {kind : String} (hfind : s.find kind = .ok i) (ht : s.tables[i]? = some t)
    (scope : Scope) (m : Moment) (criteria : Criteria) (since : Option Version)
    (timeout : Option Nat) :
    (s.act (.call kind scope m (.request (.watch criteria since timeout)))).1 =
      .answer ((t.opening ⟨criteria, scope⟩ since).map fun _ =>
        .watching ⟨t.definition.fullName, t.nextWatch⟩) := by
  rw [act_call hfind ht]
  simp only [Work.serve, serve, Focus.watch]
  rw [show (s.focus t).table = t from rfl]
  cases t.opening ⟨criteria, scope⟩ since with
  | error e => rfl
  | ok events => rfl

/-- The call that watches a kind from a version on. -/
def watchFrom (kind : String) (scope : Scope) (m : Moment) (criteria : Criteria)
    (timeout : Option Nat) (since : Version) : Action :=
  .call kind scope m (.request (.watch criteria (some since) timeout))

/-- Opening a watch commits nothing. -/
theorem Follows.act_watch (hs : s.Follows log) (kind : String) (scope : Scope) (m : Moment)
    (criteria : Criteria) (since : Option Version) (timeout : Option Nat) :
    (s.act (.call kind scope m (.request (.watch criteria since timeout)))).2.Follows log := by
  have hact := hs.act (.call kind scope m (.request (.watch criteria since timeout)))
  rwa [commits_call_nil fun _ reply => by cases reply <;> rfl, List.append_nil] at hact

/-- **A watch that was opened is one of the store.** -/
theorem act_opened (hs : s.Follows log) {kind : String} {scope : Scope} {m : Moment}
    {criteria : Criteria} {since : Option Version} {timeout : Option Nat} {h : WatchHandle}
    (hopen : (s.act (.call kind scope m (.request (.watch criteria since timeout)))).1 =
      .answer (.ok (.watching h))) :
    ∃ i t events, s.find kind = .ok i ∧ s.tables[i]? = some t ∧
      t.opening ⟨criteria, scope⟩ since = .ok events ∧
      (s.act (.call kind scope m (.request (.watch criteria since timeout)))).2.Watches i h
        ((s.focus t).enlist ((s.focus t).newWatch scope m criteria timeout events)).table
        ((s.focus t).newWatch scope m criteria timeout events) := by
  obtain ⟨i, t, hfind, ht, hserve, hact⟩ := act_answered hopen
  simp only [Work.serve, serve, map_eq_ok_iff] at hserve hact
  obtain ⟨id, hid, hhandle⟩ := hserve
  obtain rfl := Reply.watching.inj hhandle
  generalize hwatch : (s.focus t).watch scope m criteria since timeout = p at hid hact
  obtain ⟨result, f'⟩ := p
  rcases Focus.watch_spec hwatch with ⟨e, -, rfl, -⟩ | ⟨events, ho, rfl, rfl⟩
  · cases hid
  · refine ⟨i, t, events, hfind, ht, ho, ?_⟩
    obtain rfl := Except.ok.inj hid
    rw [hact]
    have hkinds := moves_sameKinds (Moves.table ht (.still ((s.focus t).still_enlist
      ((s.focus t).newWatch scope m criteria timeout events) rfl)))
    refine ⟨?_, tables_absorb_self ht _, Focus.watch?_enlist_self (hs.numbered i t ht) rfl⟩
    rw [hkinds.position?_eq]
    exact position_of_find hfind ht

end Store

end ControlPlane
