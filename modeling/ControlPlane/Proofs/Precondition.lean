import ControlPlane.Proofs.Delivery

/-!
# Conditional writes

A write may be conditional on a version: one that is given with it, one that the object of an update
carries, or one that the document of a patch names. If it succeeds, the record it replaces or
removes is the one that had that version, and nothing has happened to its key since the mutation
that produced it. Versions are never used twice, so a key that was deleted and created anew is not
mistaken for the old one.

* `Store.Work.ConditionalOn`: the ways in which a call is conditional on a version.
* `Commit.Supersedes`: a commit comes right after the mutation it builds on.
* `Store.Work.ConditionalOn.accepted`, `Store.Work.ConditionalOn.conflict`: what a table does with
  the call.
* `Store.conditional_write`: the same after every run, with the two halves of a patch.
-/

namespace ControlPlane

/-! ## Versions in texts -/

namespace Version

theorem text_ne_empty (v : Version) : v.text.isEmpty = false := by
  rw [← Bool.not_eq_true, String.isEmpty_iff, text, String.ofList_eq_empty_iff]
  exact Nat.toDigits_ne_nil

theorem isEmpty_of_parse? {s : String} {v : Version} (h : parse? s = some v) :
    s.isEmpty = false := by
  rw [← Bool.not_eq_true, String.isEmpty_iff]
  rintro rfl
  cases h

theorem parseOptional_eq {s : String} {v : Version} (h : parse? s = some v) :
    parseOptional s = .ok (some v) := by
  simp only [parseOptional, isEmpty_of_parse? h, parse, h]
  rfl

theorem parseOptional_text (v : Version) :
    parseOptional v.text =
      if v < UInt64.size then .ok (some v) else .error (.invalid (.badVersion v.text)) := by
  by_cases h : v < UInt64.size
  · rw [if_pos h]
    exact parseOptional_eq ((parse?_text v).trans (if_pos h))
  · have hnone : parse? v.text = none := (parse?_text v).trans (if_neg h)
    rw [if_neg h]
    simp only [parseOptional, text_ne_empty, parse, hnone]
    rfl

end Version

/-! ## The version that a patch names -/

namespace Patch

/-- The document of a patch; a patch of another strategy has none. -/
def document? : Patch → Option Json
  | .merge document => some document
  | .strategic document => some document
  | .apply => none
  | .edits => none

/-- The document of the patch names a resource version. -/
def Names (v : Version) (p : Patch) : Prop :=
  ∃ document text, p.document? = some document ∧
    (document.member? "metadata").bind (·.member? "resourceVersion") = some (.str text) ∧
    Version.parse? text = some v

variable {d : Definition} {current : Object} {key : Key} {v w : Version}

/-- A document that names a version is compared with the version that the object carries. -/
theorem requirePrecondition_eq (hcurrent : current.Placed d key w) {document : Json} {text : String}
    (hmember : (document.member? "metadata").bind (·.member? "resourceVersion") = some (.str text))
    (hv : Version.parse? text = some v) :
    requirePrecondition d current document =
      if w < UInt64.size then
        if v = w then .ok () else .error (.conflict d.name key.text v w)
      else .error (.invalid (.badVersion w.text)) := by
  have hdocument : precondition? document = .ok (some v) := by
    simp only [precondition?, hmember, Option.bind_some, Json.text?,
      Version.isEmpty_of_parse? hv, hv]
    rfl
  simp only [requirePrecondition, hdocument, hcurrent.version_eq, Option.getD_some,
    Version.parseOptional_text, hcurrent.key_eq]
  by_cases hw : w < UInt64.size
  · by_cases hvw : v = w
    · simp [hw, hvw, bind, Except.bind, pure, Except.pure]
    · simp [hw, hvw, bind, Except.bind, throw, throwThe, MonadExceptOf.throw]
  · simp [hw, bind, Except.bind]

/-- Nothing of a patch is computed before its document is compared. -/
theorem applyTo_eq (d : Definition) (current : Object) {p : Patch} {document : Json}
    (hp : p.document? = some document) (hobject : document.isObject = true)
    (subresource : Option Subresource) (now : Timestamp) :
    ∃ rest : Except Error Object, p.applyTo d current subresource now =
      (requirePrecondition d current document >>= fun _ => rest) := by
  cases p with
  | merge document' =>
    obtain rfl := Option.some.inj hp
    exact ⟨_, by simp only [applyTo, applyDocument, hobject]; rfl⟩
  | strategic document' =>
    obtain rfl := Option.some.inj hp
    exact ⟨_, by simp only [applyTo, applyDocument, hobject]; rfl⟩
  | apply => cases hp
  | edits => cases hp

theorem Names.eq_of_applyTo {p : Patch} (hp : p.Names v) (hcurrent : current.Placed d key w)
    {subresource : Option Subresource} {now : Timestamp} {o : Object}
    (h : p.applyTo d current subresource now = .ok o) : v = w := by
  obtain ⟨document, text, hdocument, hmember, hv⟩ := hp
  obtain ⟨metadata, hmetadata, -⟩ := Option.bind_eq_some_iff.mp hmember
  obtain ⟨rest, hrest⟩ := applyTo_eq d current hdocument
    (Json.isObject_of_member? hmetadata) subresource now
  rw [hrest, requirePrecondition_eq hcurrent hmember hv] at h
  obtain ⟨_, hpass, -⟩ := bind_eq_ok_iff.mp h
  split at hpass
  · split at hpass
    · assumption
    · cases hpass
  · cases hpass

theorem Names.applyTo_conflict {p : Patch} (hp : p.Names v) (hcurrent : current.Placed d key w)
    (subresource : Option Subresource) (now : Timestamp) (hw : w < UInt64.size) (hne : v ≠ w) :
    p.applyTo d current subresource now = .error (.conflict d.name key.text v w) := by
  obtain ⟨document, text, hdocument, hmember, hv⟩ := hp
  obtain ⟨metadata, hmetadata, -⟩ := Option.bind_eq_some_iff.mp hmember
  obtain ⟨rest, hrest⟩ := applyTo_eq d current hdocument
    (Json.isObject_of_member? hmetadata) subresource now
  rw [hrest, requirePrecondition_eq hcurrent hmember hv, if_pos hw, if_neg hne]
  rfl

end Patch

/-! ## What supersedes what -/

/-- The change replaces or removes a record. -/
inductive Change.Ends (r : Record) (version : Version) : Change → Prop
  | updated (new : Object) : Ends r version (.updated r.object new)
  | deleted : Ends r version (.deleted (r.object.stamped version))

/-- The commit replaces or removes the record `r` at its key. The mutation `source` of the log, and
no other, got the version `v`; it left `r` there, and the key was not touched again. -/
structure Commit.Supersedes (c : Commit) (log : List Commit) (v : Version) (source : Commit)
    (r : Record) : Prop where
  version_eq : source.version = v
  only : ∀ c' ∈ log, c'.version = v → c' = source
  table_eq : source.table = c.table
  key_eq : source.key = c.key
  left : source.record? = some r
  untouched : ∃ earlier later, log = earlier ++ source :: later ∧
    ∀ c' ∈ later, c'.table = c.table → c'.key ≠ c.key
  ends : c.change.Ends r c.version

/-- The last commit of a key is the last one of it in the log. -/
theorem lastOf_split {i : Nat} {key : Key} {log : List Commit} {c : Commit}
    (h : lastOf i key log = some c) :
    ∃ earlier later, log = earlier ++ c :: later ∧ ∀ c' ∈ later, c'.table = i → c'.key ≠ key := by
  rw [lastOf, ofTable, List.filter_filter] at h
  obtain ⟨before, hbefore⟩ := List.getLast?_eq_some_iff.mp h
  obtain ⟨early, late, rfl, -, hlate⟩ := List.filter_eq_append_iff.mp hbefore
  obtain ⟨middle, later, rfl, -, -, hlater⟩ := List.filter_eq_cons_iff.mp hlate
  refine ⟨early ++ middle, later, by simp, ?_⟩
  intro c' hc' htable hkey
  have hnot := List.filter_eq_nil_iff.mp hlater c' hc'
  simp [htable, hkey] at hnot

namespace Store

variable {s : Store} {log : List Commit}

theorem Follows.supersedes (hs : s.Follows log) {t : Table} {r : Record} {c : Commit}
    (ht : s.tables[c.table]? = some t) (hr : SortedMap.get? t.records c.key = some r)
    (hends : c.change.Ends r c.version) :
    ∃ source, c.Supersedes log r.version source r := by
  obtain ⟨source, hlast, hleft⟩ := hs.lastOf_eq ht (SortedMap.mem_of_get? hr)
  obtain ⟨hmem, htable, hkey⟩ := lastOf_some hlast
  have hversion := (version_of_record? hleft).1
  refine ⟨source, hversion, ?_, htable, hkey, hleft, lastOf_split hlast, hends⟩
  intro c' hc' hc'version
  exact hs.eq_of_version hc' hmem (hc'version.trans hversion.symm)

/-! ## Calls that are conditional on a version -/

namespace Work

/-- The call writes at a key if the object there is at a version. A version that is given is the one
that counts; the one that the object of an update carries counts if none is given. -/
inductive ConditionalOn (d : Definition) (key : Key) (v : Version) : Work → Prop
  | given {o : Object} {subresource : Option String} : d.key o = .ok key →
      ConditionalOn d key v (.request (.update o (some v) subresource))
  | carried {o : Object} {subresource : Option String} {text : String} : d.key o = .ok key →
      o.metadata.resourceVersion = some text → Version.parse? text = some v →
      ConditionalOn d key v (.request (.update o none subresource))
  | named {subresource : Option String} {p : Patch} : p.Names v →
      ConditionalOn d key v (.request (.patch key subresource p))
  | delete : ConditionalOn d key v (.request (.delete key (some v)))
  | writeBack {o : Object} {subresource : Option Subresource} : d.key o = .ok key →
      ConditionalOn d key v (.writeBack o v subresource)

/-- The call passes the checks that come before versions are compared. -/
def Reaches (t : Table) (r : Record) : Work → Prop
  | .request (.update o _ subresource) =>
    (∃ x, subresource.mapM t.definition.subresource = .ok x) ∧
      t.definition.validate (o.typedAs t.definition) = .ok () ∧ t.stopped = false
  | .request (.patch _ subresource _) =>
    (∃ x, subresource.mapM t.definition.subresource = .ok x) ∧ r.version < UInt64.size
  | .request (.delete ..) => t.stopped = false
  | .writeBack o _ _ => t.definition.validate (o.typedAs t.definition) = .ok () ∧ t.stopped = false
  | _ => True

end Work

end Store

/-! ### Replacements -/

theorem Definition.key_typedAs (d : Definition) (o : Object) : d.key (o.typedAs d) = d.key o :=
  d.key_congr rfl rfl

theorem Table.revision_conflict {t : Table} {scope : Scope} {o : Object}
    {expected : Option Version} {key : Key} {r : Record} {v : Version}
    (hvalid : t.definition.validate (o.typedAs t.definition) = .ok ())
    (hkey : t.definition.key o = .ok key) (hexpected : o.expectation expected = .ok (some v))
    (hrun : t.stopped = false) (hr : t.record scope key = .ok r) (hne : r.version ≠ v)
    (subresource : Option Subresource) :
    t.revision scope o expected subresource =
      .error (.conflict t.name key.text v r.version) := by
  have haccept : t.accept o = .ok (o.typedAs t.definition) := accept_eq_ok_iff.mpr ⟨hvalid, rfl⟩
  have hrunning : t.requireRunning = .ok () := requireRunning_eq_ok_iff.mpr hrun
  have hversion : t.requireVersion key (some v) r.version =
      .error (.conflict t.name key.text v r.version) := if_neg (Ne.symm hne)
  have hexpected' : (o.typedAs t.definition).expectation expected = .ok (some v) := hexpected
  simp only [revision, haccept, Definition.key_typedAs, hkey, hexpected', hrunning, hr, hversion,
    bind, Except.bind]

namespace Focus

variable {f : Focus} {scope : Scope} {m : Moment} {key : Key} {v : Version}

/-- A replacement that succeeds puts its object in the place of the visible record of its key, which
is at the version expected. -/
theorem replaced (hf : Filed f.table.definition f.table.records) {verb : Verb} {o new : Object}
    {expected : Option Version} {subresource : Option Subresource}
    (hexpected : o.expectation expected = .ok (some v))
    (h : (f.replace scope m verb o expected subresource).1 = .ok new) :
    ∃ key r, f.table.definition.key o = .ok key ∧ f.table.record scope key = .ok r ∧
      r.version = v ∧ f.table.definition.key new = .ok key ∧
      f.table.put new = .updated r.object new := by
  obtain ⟨key, r, next, hd, rfl⟩ := replace_eq_ok_iff.mp h
  obtain ⟨f', -, hc⟩ := replace_accepted 0 hf verb (m := m) hd
  obtain ⟨-, hkey, ⟨e, he, hv⟩, -, hget, hin, -⟩ := Table.revision_eq_ok_iff.mp hd
  rw [Definition.key_typedAs] at hkey
  obtain rfl : e = some v := Except.ok.inj (he.symm.trans hexpected)
  exact ⟨key, r, hkey, Table.record_eq_ok_iff.mpr ⟨hget, hin⟩, (hv v rfl).symm,
    hc.legal.1.placed.key_eq, Store.Work.put_updated hget hc⟩

theorem patched_eq_ok {subresource : Option Subresource} {p : Patch} {o : Object} {read : Version}
    (h : f.patched scope m key subresource p = .ok (o, read)) :
    ∃ r, f.table.record scope key = .ok r ∧ read = r.version ∧
      p.applyTo f.table.definition r.object subresource m.wall = .ok o := by
  simp only [patched, bind_eq_ok_iff, pure_eq_ok_iff, Prod.mk.injEq] at h
  obtain ⟨r, hr, _, ho, rfl, rfl⟩ := h
  exact ⟨r, hr, rfl, ho⟩

end Focus

/-! ### Calls -/

/-- No two records of the table share a version. -/
def Table.Distinct (t : Table) : Prop := ∀ (key key' : Key) (r r' : Record),
  SortedMap.get? t.records key = some r → SortedMap.get? t.records key' = some r' →
  r.version = r'.version → key = key'

namespace Store.Work

variable {f : Focus} {scope : Scope} {m : Moment} {key : Key} {v : Version} {w : Work}

/-- The call has one change, which replaces or removes the visible record at the key, and that is at
the version. -/
def Hits (scope : Scope) (f : Focus) (key : Key) (v : Version) (changes : List Change) : Prop :=
  ∃ r change, f.table.record scope key = .ok r ∧ r.version = v ∧ changes = [change] ∧
    f.table.definition.key change.object = .ok key ∧ change.Ends r f.version.next

theorem hits_replace (hf : ControlPlane.Filed f.table.definition f.table.records)
    (hchanges : ∀ o, w.changes f.table (.object o) = [f.table.put o]) {verb : Verb} {o : Object}
    {expected : Option Version} {subresource : Option Subresource} {reply : Reply}
    (hexpected : o.expectation expected = .ok (some v))
    (h : (f.replace scope m verb o expected subresource).1.map .object = .ok reply) :
    ∃ key, f.table.definition.key o = .ok key ∧
      Hits scope f key v (w.changes f.table reply) := by
  obtain ⟨new, hnew, rfl⟩ := map_eq_ok_iff.mp h
  obtain ⟨key, r, hkey, hr, hv, hnewkey, hput⟩ := Focus.replaced hf hexpected hnew
  refine ⟨key, hkey, r, .updated r.object new, hr, hv, ?_, hnewkey, .updated new⟩
  rw [hchanges, hput]

theorem hits_patch (hf : ControlPlane.Filed f.table.definition f.table.records)
    (hdistinct : f.table.Distinct)
    (hchanges : ∀ o, w.changes f.table (.object o) = [f.table.put o])
    {subresource : Option Subresource} {p : Patch} {reply : Reply} (hp : p.Names v)
    (h : (f.patch scope m key subresource p).1.map .object = .ok reply) :
    Hits scope f key v (w.changes f.table reply) := by
  obtain ⟨new, hnew, rfl⟩ := map_eq_ok_iff.mp h
  obtain ⟨o, read, hd, hreplace⟩ := Focus.patch_eq_ok_iff.mp hnew
  obtain ⟨r, hr, rfl, ho⟩ := Focus.patched_eq_ok hd
  obtain ⟨hget, -⟩ := Table.record_eq_ok_iff.mp hr
  have hv : v = r.version := hp.eq_of_applyTo (hf key r hget) ho
  subst hv
  obtain ⟨key', -, hhits⟩ := hits_replace hf hchanges rfl (map_eq_ok_iff.mpr ⟨new, hreplace, rfl⟩)
  -- The record that is replaced is at the version that was read, so it is the one that was read.
  have hsame : key = key' := by
    obtain ⟨r', -, hr', hversion, -⟩ := hhits
    exact hdistinct key key' r r' hget (Table.record_eq_ok_iff.mp hr').1 hversion.symm
  exact hsame ▸ hhits

theorem expectation_carried {o : Object} {text : String}
    (htext : o.metadata.resourceVersion = some text) (hv : Version.parse? text = some v) :
    o.expectation none = .ok (some v) := by
  simp only [Object.expectation, htext, Option.getD_some, Version.parseOptional_eq hv]

/-- **A conditional call that succeeds replaces or removes the record it expects.** -/
theorem ConditionalOn.accepted (hw : w.ConditionalOn f.table.definition key v)
    (hf : ControlPlane.Filed f.table.definition f.table.records) (hdistinct : f.table.Distinct)
    {reply : Reply} (h : (w.serve scope m f).1 = .ok reply) :
    Hits scope f key v (w.changes f.table reply) := by
  have hits (hchanges : ∀ o, w.changes f.table (.object o) = [f.table.put o]) (verb : Verb)
      {o : Object} {expected : Option Version} {x : Option Subresource}
      (hkey : f.table.definition.key o = .ok key)
      (hexpected : o.expectation expected = .ok (some v))
      (h : (f.replace scope m verb o expected x).1.map .object = .ok reply) :
      Hits scope f key v (w.changes f.table reply) := by
    obtain ⟨key', hkey', hhits⟩ := hits_replace hf hchanges hexpected h
    obtain rfl := Except.ok.inj (hkey.symm.trans hkey')
    exact hhits
  cases hw with
  | given hkey =>
    obtain ⟨x, -, hx⟩ := serve_update_ok h
    exact hits (fun _ => rfl) .update hkey rfl hx
  | carried hkey htext hv =>
    obtain ⟨x, -, hx⟩ := serve_update_ok h
    exact hits (fun _ => rfl) .update hkey (expectation_carried htext hv) hx
  | named hp =>
    obtain ⟨x, -, hx⟩ := serve_patch_ok h
    exact hits_patch hf hdistinct (fun _ => rfl) hp hx
  | delete =>
    obtain ⟨tombstone, htombstone, rfl⟩ := map_eq_ok_iff.mp h
    obtain ⟨r, hd, rfl⟩ := Focus.delete_eq_ok_iff.mp htombstone
    obtain ⟨-, hget, hin, hv⟩ := Table.removal_eq_ok_iff.mp hd
    exact ⟨r, _, Table.record_eq_ok_iff.mpr ⟨hget, hin⟩, (hv v rfl).symm, rfl,
      ((hf key r hget).stamped _).key_eq, .deleted⟩
  | writeBack hkey => exact hits (fun _ => rfl) .patch hkey rfl h

theorem replace_conflict {verb : Verb} {o : Object} {expected : Option Version} {r : Record}
    (hvalid : f.table.definition.validate (o.typedAs f.table.definition) = .ok ())
    (hkey : f.table.definition.key o = .ok key) (hexpected : o.expectation expected = .ok (some v))
    (hrun : f.table.stopped = false) (hr : f.table.record scope key = .ok r) (hne : r.version ≠ v)
    (x : Option Subresource) :
    (f.replace scope m verb o expected x).1.map .object =
      (.error (.conflict f.table.name key.text v r.version) : Except Error Reply) := by
  rw [Focus.replace_refused (Table.revision_conflict hvalid hkey hexpected hrun hr hne x)]
  rfl

/-- **A conditional call on a record of another version is a conflict**, if nothing else is wrong
with it. -/
theorem ConditionalOn.conflict (hw : w.ConditionalOn f.table.definition key v)
    (hf : ControlPlane.Filed f.table.definition f.table.records) {r : Record}
    (hr : f.table.record scope key = .ok r) (hne : r.version ≠ v) (hreaches : w.Reaches f.table r) :
    (w.serve scope m f).1 = .error (.conflict f.table.name key.text v r.version) := by
  cases hw with
  | given hkey =>
    obtain ⟨⟨x, hx⟩, hvalid, hrun⟩ := hreaches
    rw [serve_update hx]
    exact replace_conflict hvalid hkey rfl hrun hr hne x
  | carried hkey htext hv =>
    obtain ⟨⟨x, hx⟩, hvalid, hrun⟩ := hreaches
    rw [serve_update hx]
    exact replace_conflict hvalid hkey (expectation_carried htext hv) hrun hr hne x
  | @named subresource p hp =>
    obtain ⟨⟨x, hx⟩, hsize⟩ := hreaches
    have hcurrent := hf key r (Table.record_eq_ok_iff.mp hr).1
    have hpatched : f.patched scope m key x p =
        .error (.conflict f.table.name key.text v r.version) := by
      simp only [Focus.patched, hr, bind, Except.bind,
        hp.applyTo_conflict hcurrent x m.wall hsize (Ne.symm hne)]
      rfl
    rw [serve_patch hx, Focus.patch_refused hpatched]
    rfl
  | delete =>
    have hrunning : f.table.requireRunning = .ok () := Table.requireRunning_eq_ok_iff.mpr hreaches
    have hversion : f.table.requireVersion key (some v) r.version =
        .error (.conflict f.table.name key.text v r.version) := if_neg (Ne.symm hne)
    have hremoval : f.table.removal scope key (some v) =
        .error (.conflict f.table.name key.text v r.version) := by
      simp only [Table.removal, hrunning, hr, hversion, bind, Except.bind]
    simp only [serve, Store.serve, Focus.delete_refused hremoval]
    rfl
  | writeBack hkey =>
    obtain ⟨hvalid, hrun⟩ := hreaches
    exact replace_conflict hvalid hkey rfl hrun hr hne _

end Store.Work

/-! ## Runs -/

namespace Store

variable {s : Store} {log : List Commit} {kind : String} {i : Nat} {t : Table} {scope : Scope}
  {m : Moment} {w : Work} {key : Key} {v : Version}

theorem Follows.distinct (hs : s.Follows log) (ht : s.tables[i]? = some t) : t.Distinct := by
  intro key key' r r' hr hr' hversion
  exact (hs.place_of_version ht ht (SortedMap.mem_of_get? hr) (SortedMap.mem_of_get? hr')
    hversion).2

/-- A conditional call that succeeds has one commit, which supersedes the mutation that produced the
version. -/
theorem Follows.conditional (hs : s.Follows log) (hfind : s.find kind = .ok i)
    (ht : s.tables[i]? = some t) (hw : w.ConditionalOn t.definition key v) {reply : Reply}
    (h : (s.act (.call kind scope m w)).1 = .answer (.ok reply)) :
    ∃ c r source, s.commits (.call kind scope m w) = [c] ∧ c.table = i ∧ c.key = key ∧
      t.record scope key = .ok r ∧ c.Supersedes log v source r := by
  have hf := (hs.tables i t ht).filed
  have hserve : (w.serve scope m (s.focus t)).1 = .ok reply := by
    rw [act_call hfind ht] at h
    exact Outcome.answer.inj h
  obtain ⟨r, change, hr, rfl, hchanges, hkey, hends⟩ :=
    Work.ConditionalOn.accepted (f := s.focus t) hw hf (hs.distinct ht) hserve
  replace hchanges : w.changes t reply = [change] := hchanges
  replace hkey : t.definition.key change.object = .ok key := hkey
  have hcommits : s.commits (.call kind scope m w) =
      [⟨i, key, s.version.next, change⟩] := by
    rw [commits_call_ok (Outcome.answer.inj h) hfind ht, hchanges, Commit.number,
      Definition.keyOf_eq hkey]
    rfl
  obtain ⟨source, hsupersedes⟩ := hs.supersedes (c := ⟨i, key, s.version.next, change⟩) ht
    (Table.record_eq_ok_iff.mp hr).1 hends
  exact ⟨_, r, source, hcommits, rfl, rfl, hr, hsupersedes⟩

/-- The object that a patch made supersedes the record it was made of, whatever happened meanwhile,
or is refused. -/
theorem Follows.written_back (hs : s.Follows log) (hfind : s.find kind = .ok i)
    (ht : s.tables[i]? = some t) {x : Option Subresource} {p : Patch} {o : Object} {read : Version}
    (hpatched : (s.focus t).patched scope m key x p = .ok (o, read)) (between : List Action)
    {scope' : Scope} {m' : Moment} {reply : Reply}
    (h : ((s.run between).act (.call kind scope' m' (.writeBack o read x))).1 =
      .answer (.ok reply)) :
    ∃ c r source, (s.run between).commits (.call kind scope' m' (.writeBack o read x)) = [c] ∧
      c.table = i ∧ c.key = key ∧ c.Supersedes (log ++ s.log between) read source r := by
  have hkinds := sameKinds_run hs between
  have hfind' : (s.run between).find kind = .ok i := (hkinds.find_eq kind).trans hfind
  obtain ⟨t', ht'⟩ := hkinds.table_some ht
  have hs' := follows_run hs between
  have hserve :
      (((s.run between).focus t').replace scope' m' .patch o (some read) x).1.map .object =
        .ok reply := by
    rw [act_call hfind' ht'] at h
    exact Outcome.answer.inj h
  obtain ⟨key', hkey', -⟩ := Work.hits_replace (hs'.tables i t' ht').filed
    (w := .writeBack o read x) (fun _ => rfl) rfl hserve
  obtain ⟨c, r', source, hcommits, htable, -, -, hc⟩ :=
    hs'.conditional hfind' ht' (.writeBack hkey') h
  obtain ⟨r, hr, rfl, -⟩ := Focus.patched_eq_ok hpatched
  -- The mutation that left the record is in the log already, and no other ever gets its version.
  obtain ⟨source', hlast, hleft⟩ :=
    hs.lastOf_eq ht (SortedMap.mem_of_get? (Table.record_eq_ok_iff.mp hr).1)
  obtain ⟨hmem, -, hkey⟩ := lastOf_some hlast
  obtain rfl := hc.only source' (List.mem_append_left _ hmem) (version_of_record? hleft).1
  exact ⟨c, r', source', hcommits, htable, hc.key_eq.symm.trans hkey, hc⟩

/-- **No update is lost, and no version is mistaken for another.** A conditional call that succeeds,
through whatever scope and after whatever run, supersedes the one mutation that produced the version
it expects. On a visible record of another version it is a conflict, which tells both versions. An
object that a patch made of a record can be written back only if that record is still there. -/
theorem conditional_write (catalog : Catalog) (limits : WatchLimits) (before : List Action)
    {s : Store} (hs : s = (empty catalog limits).run before) {kind : String} {i : Nat} {t : Table}
    (hfind : s.find kind = .ok i) (ht : s.tables[i]? = some t) (key : Key) :
    (∀ scope m w v, w.ConditionalOn t.definition key v →
      (∀ reply, (s.act (.call kind scope m w)).1 = .answer (.ok reply) →
        ∃ c r source, s.commits (.call kind scope m w) = [c] ∧ c.table = i ∧ c.key = key ∧
          t.record scope key = .ok r ∧
          c.Supersedes ((empty catalog limits).log before) v source r) ∧
      ∀ r, t.record scope key = .ok r → r.version ≠ v → w.Reaches t r →
        (s.act (.call kind scope m w)).1 =
          .answer (.error (.conflict t.name key.text v r.version))) ∧
    ∀ scope m x p o read, (s.focus t).patched scope m key x p = .ok (o, read) →
      (∀ v, p.Names v → v = read) ∧
      ∀ between scope' m' reply,
        ((s.run between).act (.call kind scope' m' (.writeBack o read x))).1 =
          .answer (.ok reply) →
        ∃ c r source, (s.run between).commits (.call kind scope' m' (.writeBack o read x)) = [c] ∧
          c.table = i ∧ c.key = key ∧
          c.Supersedes ((empty catalog limits).log (before ++ between)) read source r := by
  have hfollows := follows_reached catalog limits before
  rw [← hs] at hfollows
  have hf := (hfollows.tables i t ht).filed
  refine ⟨?_, ?_⟩
  · intro scope m w v hw
    refine ⟨?_, ?_⟩
    · intro reply h
      exact hfollows.conditional hfind ht hw h
    · intro r hr hne hreaches
      rw [act_call hfind ht]
      exact congrArg _ (hw.conflict (f := s.focus t) hf hr hne hreaches)
  · intro scope m x p o read hpatched
    refine ⟨?_, ?_⟩
    · intro v hp
      obtain ⟨r, hr, rfl, ho⟩ := Focus.patched_eq_ok hpatched
      exact hp.eq_of_applyTo (hf key r (Table.record_eq_ok_iff.mp hr).1) ho
    · intro between scope' m' reply h
      have hback := hfollows.written_back hfind ht hpatched between h
      rw [log_append, ← hs]
      exact hback

/-- A config map that was deleted and created anew: a delete that expects the old one is a conflict,
and one that expects the new one supersedes its creation. -/
theorem conditional_write_configs :
    ∃ t, (configStore.run [createConfig "a", configCall (.delete ⟨some "default", "a"⟩ none),
          createConfig "a"]).tables[0]? = some t ∧
      ((configStore.run [createConfig "a", configCall (.delete ⟨some "default", "a"⟩ none),
          createConfig "a"]).act (configCall (.delete ⟨some "default", "a"⟩ (some 1)))).1 =
        .answer (.error (.conflict t.name (Key.text ⟨some "default", "a"⟩) 1 3)) ∧
      ∃ c r source, (configStore.run [createConfig "a",
          configCall (.delete ⟨some "default", "a"⟩ none), createConfig "a"]).commits
            (configCall (.delete ⟨some "default", "a"⟩ (some 3))) = [c] ∧
        c.table = 0 ∧ c.key = ⟨some "default", "a"⟩ ∧
        t.record .all ⟨some "default", "a"⟩ = .ok r ∧
        c.Supersedes (configStore.log [createConfig "a",
          configCall (.delete ⟨some "default", "a"⟩ none), createConfig "a"]) 3 source r := by
  have h (t) := @conditional_write configCatalog ⟨2, 1000, 2⟩ [createConfig "a",
    configCall (.delete ⟨some "default", "a"⟩ none), createConfig "a"] _ rfl "v1/ConfigMap" 0 t rfl
  refine ⟨_, rfl, ?_, ?_⟩
  · exact ((h _ rfl ⟨some "default", "a"⟩).1 .all _ _ 1 .delete).2 _ rfl (by decide) rfl
  · exact ((h _ rfl ⟨some "default", "a"⟩).1 .all _ _ 3 .delete).1 _ rfl

end Store

end ControlPlane
