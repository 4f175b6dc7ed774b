import ControlPlane.Proofs.Lineage
import ControlPlane.Proofs.Tidy

/-!
# Writing back what was read

A client that reads an object and writes back what it got writes the object's document in the form
of its type. The store takes it: it names the same object at the version that is current. The type
and the metadata are those that were read. The data are what the type shows of them, so they stay as
they were exactly if the type shows every member as it is. Otherwise the members that the type does
not know are lost, and the others are rewritten; after that the data are as the type shows them, and
writing back again changes no more than the version.

* `Definition.Shows`: a document shows the data of an object as they are.
* `Kind.Regular.exists_reread`: what the document of an object decodes as.
* `Object.WrittenBack`: what writing back makes of an object.
* `Store.typed_write_back`: every object that a client reads can be written back, and what that
  changes.
* `Store.unknown_member_lost`: an object that is changed by it.
-/

namespace ControlPlane

open Object (headKeys mem_headKeys_iff notMem_headKeys_iff)

/-- The document shows the data of the object as they are, but for a status that is kept apart. -/
def Definition.Shows (d : Definition) (document : Json) (o : Object) : Prop :=
  ∀ key, key ∉ headKeys → (d.hasStatus = true → key ≠ "status") →
    document.member? key = SortedMap.get? o.data key

/-! ## What is read -/

/-- The object is what the document decodes as that shows another one: it has the same metadata, and
the members of the document as its data. -/
structure Object.Reread (k : Kind) (document : Json) (o w : Object) : Prop where
  tidy : w.Tidy
  types_eq : w.types = some ⟨k.apiVersion, k.name⟩
  metadata_eq : w.metadata = o.metadata
  head_none : ∀ key ∈ headKeys, SortedMap.get? w.data key = none
  data_eq : ∀ key, key ∉ headKeys → SortedMap.get? w.data key = document.member? key
  decode?_eq : k.decode? w.toJson = some document

namespace Kind

variable {k : Kind} {o o' : Object} {document document' : Json}

theorem Regular.formed (hk : k.Regular) : k.Formed := fun _ hf hname => hk.shape_metadata hf hname

/-- The document of an object is decoded by the members of its kind. -/
theorem exists_decodeFields?_toJson (h : k.decode? o.toJson = some document) :
    ∃ out, Shape.decodeFields? k.fields o.toMembers = some out ∧ document = k.typed out := by
  rw [Object.toJson, decode?] at h
  split at h
  · obtain ⟨out, hout, rfl⟩ := Option.map_eq_some_iff.mp h
    exact ⟨out, hout, rfl⟩
  · cases h

namespace Regular

variable (hk : k.Regular)

include hk

theorem sorted_members (h : k.decode? o.toJson = some document) :
    SortedMap.Sorted document.members := by
  obtain ⟨out, hout, rfl⟩ := exists_decodeFields?_toJson h
  exact hk.sorted_typed hout

/-- The metadata of a tidy object are shown as they are. -/
theorem member?_metadata (ho : o.Tidy) (h : k.decode? o.toJson = some document) :
    document.member? "metadata" = some (.obj o.metadata.toMembers) := by
  obtain ⟨out, hout, rfl⟩ := exists_decodeFields?_toJson h
  have hgiven : Shape.given? o.toMembers "metadata" = some (.obj o.metadata.toMembers) := by
    rw [Shape.given?, Object.get?_toMembers, ho.plain]
    rfl
  obtain ⟨normal, hnormal, hget⟩ := Shape.decode?_given? hk.ascend hout hk.metadata hgiven
  obtain rfl := Option.some.inj (hnormal.symm.trans ho.metadata.isNormal_toMembers)
  rw [member?_typed_of_ne (by decide) (by decide)]
  exact hget

/-- **What the document of an object decodes as.** -/
theorem exists_reread (ho : o.Tidy) (h : k.decode? o.toJson = some document) :
    ∃ w, Object.decode document = .ok w ∧ o.Reread k document w := by
  have hmetadata := hk.member?_metadata ho h
  obtain ⟨out, hout, rfl⟩ := exists_decodeFields?_toJson h
  obtain ⟨w, hw, hparts⟩ := hk.exists_parts hout
  have hnormal := Object.normal_of_decode hw
  have htidy := Object.tidy_of_decode (hk.sorted_typed hout) hw
  refine ⟨w, hw, htidy, hparts.types_eq, ?_, fun key hkey => ?_, fun key hkey => ?_,
    ?_⟩
  · rw [hparts.metadata_eq] at hmetadata
    rw [← htidy.metadata.ofMembers_toMembers, Json.obj.inj (Option.some.inj hmetadata),
      ho.metadata.ofMembers_toMembers]
  · rcases mem_headKeys_iff.mp hkey with rfl | rfl | rfl
    · exact hnormal.apiVersion_none
    · exact hnormal.kind_none (by rw [hparts.types_eq]; rfl)
    · exact hnormal.metadata_none
  · obtain ⟨hversion, hkind, hmetadata⟩ := notMem_headKeys_iff.mp hkey
    exact hparts.data_eq key hversion hkind hmetadata
  · rw [hparts.toJson_eq]
    exact hk.decode?_typed hout

/-- A member that is given as an earlier document shows it, or as that was given it, is shown in the
same way. -/
theorem member?_congr (h : k.decode? o.toJson = some document)
    (h' : k.decode? o'.toJson = some document') {key : String} (hkey : key ∉ headKeys)
    (hdata : SortedMap.get? o'.data key = SortedMap.get? o.data key ∨
      SortedMap.get? o'.data key = document.member? key) :
    document'.member? key = document.member? key := by
  obtain ⟨hversion, hkind, hmetadata⟩ := notMem_headKeys_iff.mp hkey
  have hget (o : Object) : SortedMap.get? o.toMembers key = SortedMap.get? o.data key :=
    o.get?_toMembers_other hversion hkind hmetadata
  obtain ⟨out, hout, rfl⟩ := exists_decodeFields?_toJson h
  obtain ⟨out', hout', rfl⟩ := exists_decodeFields?_toJson h'
  rw [member?_typed_of_ne hversion hkind] at hdata ⊢
  rw [member?_typed_of_ne hversion hkind]
  rcases hdata with hdata | hdata
  · refine Shape.get?_decodeFields?_congr hout hout' ?_
    rw [Shape.given?, Shape.given?, hget, hget, hdata]
  · -- what is shown once is decoded as itself
    have hagain := Shape.decodeFields?_decodeFields? k.fields hk.areRegular _ out hout
    refine Shape.get?_decodeFields?_congr hagain hout' ?_
    rw [Shape.given?, Shape.given?, hget, hdata]

end Regular

end Kind

/-! ## What is written -/

/-- What writing back makes of an object that was read as the document of its type. -/
structure Object.WrittenBack (d : Definition) (document : Json) (version : Version)
    (old new : Object) : Prop where
  types_eq : new.types = old.types
  metadata_eq : new.metadata = { old.metadata with
    generation := new.metadata.generation
    resourceVersion := some version.text }
  head_none : ∀ key ∈ headKeys, SortedMap.get? new.data key = none
  data_eq : ∀ key, key ∉ headKeys → (d.hasStatus = true → key ≠ "status") →
    SortedMap.get? new.data key = document.member? key
  status_eq : d.hasStatus = true → new.status = old.status
  /-- The data and the generation stay as they are exactly if the document shows the data. -/
  kept_iff : (∀ key ∈ headKeys, SortedMap.get? old.data key = none) →
    (new.data = old.data ∧ new.metadata.generation = old.metadata.generation ↔
      d.Shows document old)

namespace Object

variable {document : Json} {old w : Object}

theorem contentDiffers_of_data_eq {old new : Object} (hold : SortedMap.Sorted old.data)
    (h : new.data = old.data) : contentDiffers old new = false := by
  have hnew : SortedMap.Sorted new.data := h ▸ hold
  rw [← Bool.not_eq_true, contentDiffers_iff hold hnew]
  rintro ⟨key, -, hne⟩
  rw [h] at hne
  cases hvalue : SortedMap.get? old.data key with
  | none => rw [hvalue] at hne; cases hne
  | some value =>
    rw [hvalue] at hne
    exact Bool.false_ne_true (hne.symm.trans (Json.beq_self value))

/-- **What is stored in place of an object whose document was written back.** -/
theorem Reread.writtenBack {t : Table} (h : old.Reread t.definition.kind document w)
    (htypes : old.types = some t.definition.typeMeta) (hold : old.Tidy)
    (hgeneration : old.metadata.generation.isSome = true) (version : Version) :
    old.WrittenBack t.definition document version
      ((t.composed none old w).succeeding old version) := by
  have hcomposed : t.composed none old w =
      if t.definition.hasStatus then w.setStatus old.status else w := rfl
  have htidy : (t.composed none old w).Tidy := h.tidy.composed hold t none
  have hdata (key : String) : SortedMap.get? (t.composed none old w).data key =
      if t.definition.hasStatus = true ∧ key = "status" then old.status
      else SortedMap.get? w.data key := by
    rw [hcomposed]
    by_cases hstatus : t.definition.hasStatus = true
    · rw [if_pos hstatus, setStatus, SortedMap.get?_set]
      simp [hstatus]
    · rw [if_neg hstatus, if_neg fun h => hstatus h.1]
  have hhead (key : String) (hkey : key ∈ headKeys) :
      SortedMap.get? (t.composed none old w).data key = none := by
    rw [hdata, if_neg, h.head_none key hkey]
    rintro ⟨-, rfl⟩
    exact absurd hkey (by decide)
  have hshown (key : String) (hkey : key ∉ headKeys)
      (hstatus : t.definition.hasStatus = true → key ≠ "status") :
      SortedMap.get? (t.composed none old w).data key = document.member? key := by
    rw [hdata, if_neg fun h => hstatus h.1 h.2, h.data_eq key hkey]
  have hmetadata : (t.composed none old w).metadata = old.metadata := by
    rw [hcomposed, ← h.metadata_eq]
    split <;> rfl
  refine ⟨?_, ?_, hhead, hshown, fun hstatus => ?_, fun hnone => ⟨?_, fun hshows => ?_⟩⟩
  · refine Eq.trans ?_ (h.types_eq.trans htypes.symm)
    show (t.composed none old w).types = w.types
    rw [hcomposed]
    split <;> rfl
  · simp only [succeeding, hmetadata]
  · rw [status_succeeding, status, hdata, if_pos ⟨hstatus, rfl⟩]
  · rintro ⟨hkept, -⟩ key hkey hstatus
    rw [← hshown key hkey hstatus, ← hkept]
    rfl
  · have hkept : (t.composed none old w).data = old.data := by
      refine SortedMap.ext htidy.sorted hold.sorted fun key => ?_
      by_cases hkey : key ∈ headKeys
      · rw [hhead key hkey, hnone key hkey]
      by_cases hstatus : t.definition.hasStatus = true ∧ key = "status"
      · rw [hdata, if_pos hstatus, status, hstatus.2]
      · have hne : t.definition.hasStatus = true → key ≠ "status" := fun h h' => hstatus ⟨h, h'⟩
        rw [hshown key hkey hne, hshows key hkey hne]
    obtain ⟨n, hn⟩ := Option.isSome_iff_exists.mp hgeneration
    refine ⟨hkept, ?_⟩
    simp only [succeeding, contentDiffers_of_data_eq hold.sorted hkept, hn]
    rfl

end Object

/-- Nothing is shown otherwise than it was, but the metadata. -/
theorem Kind.Regular.member?_writtenBack {d : Definition} (hk : d.kind.Regular) {old new : Object}
    {document again : Json} (h : d.kind.decode? old.toJson = some document)
    (h' : d.kind.decode? new.toJson = some again) {version : Version}
    (hwritten : old.WrittenBack d document version new) {key : String} (hkey : key ≠ "metadata") :
    again.member? key = document.member? key := by
  by_cases hhead : key ∈ headKeys
  · obtain ⟨out, -, rfl⟩ := exists_decodeFields?_toJson h
    obtain ⟨out', -, rfl⟩ := exists_decodeFields?_toJson h'
    rcases mem_headKeys_iff.mp hhead with rfl | rfl | rfl
    · rw [member?_typed_apiVersion, member?_typed_apiVersion]
    · rw [member?_typed_kind, member?_typed_kind]
    · exact absurd rfl hkey
  · apply hk.member?_congr h h' hhead
    by_cases hstatus : d.hasStatus = true ∧ key = "status"
    · obtain ⟨hapart, rfl⟩ := hstatus
      exact Or.inl (hwritten.status_eq hapart)
    · exact Or.inr (hwritten.data_eq key hhead fun hapart heq => hstatus ⟨hapart, heq⟩)

/-! ## Clients -/

theorem Definition.eq_of_key {d : Definition} {o : Object} {key : Key} (h : d.key o = .ok key) :
    o.name ≠ "" ∧ key = ⟨o.metadata.ns.filter (!·.isEmpty), o.name⟩ := by
  unfold Definition.key at h
  split at h
  · cases h
  · next hname =>
    refine ⟨fun h => hname (by rw [h]; rfl), ?_⟩
    split at h
    · cases h
    · cases h
    · exact (Except.ok.inj h).symm

namespace Client

variable {c : Client} {s : Store} {i : Nat} {t : Table} {name : String} {document : Json}

theorem decode_eq_ok_iff {r : Resource} {o : Object} :
    r.decode o = .ok document ↔ r.decode? o.toJson = some document := by
  unfold Resource.decode
  cases r.decode? o.toJson <;> simp

/-- What a client reads is what the record of the name decodes as. -/
theorem get_eq_ok_iff (hfind : s.find c.kind = .ok i) (ht : s.tables[i]? = some t) :
    c.get s name = .ok document ↔
      ∃ r, SortedMap.get? t.records (c.key name) = some r ∧
        c.view.scope.contains r.object = true ∧
        c.resource.decode? r.object.toJson = some document := by
  have hget : c.get s name =
      ((t.record c.view.scope (c.key name)).map (·.object)).bind c.resource.decode := by
    simp only [get, onObject, onTable, Store.onKind, hfind, ht]
    rfl
  rw [hget]
  constructor
  · intro h
    obtain ⟨o, ho, hdecode⟩ := bind_eq_ok_iff.mp h
    obtain ⟨r, hr, rfl⟩ := map_eq_ok_iff.mp ho
    obtain ⟨hrecord, hin⟩ := Table.record_eq_ok_iff.mp hr
    exact ⟨r, hrecord, hin, decode_eq_ok_iff.mp hdecode⟩
  · rintro ⟨r, hrecord, hin, hdecode⟩
    exact bind_eq_ok_iff.mpr ⟨r.object,
      map_eq_ok_iff.mpr ⟨r, Table.record_eq_ok_iff.mpr ⟨hrecord, hin⟩, rfl⟩,
      decode_eq_ok_iff.mpr hdecode⟩

/-- The document of an object at the key of a name is one of that name in the namespace of the
client. -/
theorem encodeAs_of_key {d : Definition} {w : Object} (hw : Object.decode document = .ok w)
    (hkey : d.key w = .ok (c.key name)) : c.encodeAs name document = .ok w := by
  obtain ⟨hname, heq⟩ := Definition.eq_of_key hkey
  obtain ⟨hns, hnamed⟩ := Key.mk.inj heq
  have hencode : c.encode document = .ok w := by
    rw [encode, hw]
    cases hc : c.ns with
    | none => rfl
    | some ns =>
      rw [hc] at hns
      simp only [bind, Except.bind, ← hns]
      rfl
  have hgiven : w.metadata.name = some name := by
    rw [Object.name] at hname hnamed
    cases hnone : w.metadata.name with
    | none => rw [hnone] at hname; exact absurd rfl hname
    | some given => rw [hnone] at hnamed; exact congrArg some hnamed.symm
  simp only [encodeAs, hencode, bind, Except.bind, hgiven]
  rfl

end Client

/-! ## One replacement -/

/-- **The store takes the document of a visible object**, if it names the version of the object. -/
theorem Table.revision_reread {t : Table} {scope : Scope} {key : Key} {r : Record} {w : Object}
    {document : Json} (hrunning : t.stopped = false)
    (hget : SortedMap.get? t.records key = some r) (hin : scope.contains r.object = true)
    (hplaced : r.object.Placed t.definition key r.version) (hversion : r.version < UInt64.size)
    (h : r.object.Reread t.definition.kind document w) :
    t.revision scope w none none = .ok (key, r, t.composed none r.object w) := by
  have htyped : w.typedAs t.definition = w := by
    obtain ⟨types, metadata, data⟩ := w
    obtain rfl : types = some t.definition.typeMeta := h.types_eq
    rfl
  have hmetadata : (t.composed none r.object w).metadata = r.object.metadata := by
    rw [← h.metadata_eq, Table.composed]
    split <;> rfl
  have hcontains : scope.contains (t.composed none r.object w) = true :=
    (Scope.contains_congr (congrArg Metadata.labels hmetadata)
      (congrArg Metadata.ns hmetadata)).trans hin
  have hmark := Scope.mark_of_contains hcontains
  rw [revision_eq_ok_iff, htyped, hmark]
  refine ⟨?_, ?_, ⟨some r.version, ?_, fun v hv => (Option.some.inj hv).symm⟩, hrunning, hget, hin,
    Scope.fault?_of_contains hcontains _, rfl⟩
  · refine Definition.validate_eq_ok_iff.mpr ⟨fun types htypes => ?_, ?_⟩
    · exact Option.some.inj (htypes.symm.trans h.types_eq)
    · rw [h.decode?_eq]
      rfl
  · exact (t.definition.key_congr (congrArg Metadata.name h.metadata_eq)
      (congrArg Metadata.ns h.metadata_eq)).trans hplaced.key_eq
  · rw [Object.expectation, h.metadata_eq, hplaced.version_eq, Option.getD_some,
      Version.parseOptional_text, if_pos hversion]

namespace Client

variable {c : Client} {m : Moment} {name : String} {i : Nat} {s : Store} {t : Table}
  {document : Json} {w : Object}

/-- A replacement with a document of the name is an update with the object that it decodes as. -/
theorem replace_eq (hfind : s.find c.kind = .ok i) (ht : s.tables[i]? = some t)
    (hw : c.encodeAs name document = .ok w) {result : Except Error Object} {f : Focus}
    (hf : (s.focus t).replace c.view.scope m .update w none none = (result, f)) :
    c.replace s m name document = (result.bind c.resource.decode, s.absorb i f) := by
  have hupdate : (s.focus t).update c.view.scope m w none none = (result, f) := hf
  simp only [replace, write, hw, onObject, onTable, Store.onKind, hfind, ht]
  dsimp only [Option.mapM, pure, Except.pure]
  rw [hupdate]

/-- Writing back the document of the visible object of a name stores the object that it decodes as
in its place. -/
theorem replace_reread {r : Record} (hfind : s.find c.kind = .ok i) (ht : s.tables[i]? = some t)
    (hrunning : t.stopped = false) (hr : SortedMap.get? t.records (c.key name) = some r)
    (hin : c.view.scope.contains r.object = true)
    (hplaced : r.object.Placed t.definition (c.key name) r.version)
    (hversion : r.version < UInt64.size) (hw : Object.decode document = .ok w)
    (h : r.object.Reread t.definition.kind document w) {new : Object}
    (hnew : new = (t.composed none r.object w).succeeding r.object s.version.next) :
    c.replace s m name document = (c.resource.decode new, s.absorb i
      ((s.focus t).commit m.now .update
        (SortedMap.insert t.records (c.key name) ⟨new, s.version.next⟩)
        (.updated r.object new))) := by
  have hencode : c.encodeAs name document = .ok w := by
    apply encodeAs_of_key hw
    exact (t.definition.key_congr (congrArg Metadata.name h.metadata_eq)
      (congrArg Metadata.ns h.metadata_eq)).trans hplaced.key_eq
  have hrevision : (s.focus t).table.revision c.view.scope w none none =
      .ok (c.key name, r, t.composed none r.object w) :=
    Table.revision_reread hrunning hr hin hplaced hversion h
  have hreplace : (s.focus t).replace c.view.scope m .update w none none =
      (.ok new, (s.focus t).commit m.now .update
        (SortedMap.insert t.records (c.key name) ⟨new, s.version.next⟩)
        (.updated r.object new)) := by
    rw [Focus.replace, hrevision, hnew]
    rfl
  exact replace_eq hfind ht hencode hreplace

/-- The client has written back the document that it read under the name: the object takes the place
of the record of the name, and the client reads it as the document that it is answered. -/
structure WroteBack (c : Client) (m : Moment) (name : String) (document : Json) (s : Store)
    (i : Nat) (t : Table) (r : Record) (new : Object) (again : Json) : Prop where
  record_eq : SortedMap.get? t.records (c.key name) = some r
  object : r.object.WrittenBack t.definition document s.version.next new
  answer_eq : (c.replace s m name document).1 = .ok again
  table_eq : ∃ t', (c.replace s m name document).2.tables[i]? = some t' ∧
    t'.definition = t.definition ∧ t'.stopped = false ∧
    t'.records = SortedMap.insert t.records (c.key name) ⟨new, s.version.next⟩
  version_eq : (c.replace s m name document).2.version = s.version.next
  get_eq : c.get (c.replace s m name document).2 name = .ok again
  /-- Nothing that is shown has changed but the metadata. -/
  shown_eq : ∀ key, key ≠ "metadata" → again.member? key = document.member? key

end Client

namespace Store

variable {catalog : Catalog} {limits : WatchLimits}

theorem regular_reached (hregular : ∀ d ∈ catalog.definitions, d.kind.Regular)
    (actions : List Action) {i : Nat} {t : Table}
    (ht : ((empty catalog limits).run actions).tables[i]? = some t) :
    t.definition.kind.Regular := by
  apply hregular
  rw [← definitions_reached catalog limits actions]
  exact List.mem_map_of_mem (List.mem_of_getElem? ht)

theorem sameKinds_replace {log : List Commit} {s : Store} (hs : s.Follows log) (c : Client)
    (m : Moment) (name : String) (document : Json) :
    s.SameKinds (c.replace s m name document).2 := by
  have hrun := Client.carryOut_run c s m (.replace name document)
  rw [show (c.replace s m name document).2 = s.run _ from hrun]
  exact sameKinds_run hs _

/-- The objects of a store are tidy and have a generation. -/
theorem tidy_reached {actions : List Action}
    (hactions : ∀ a ∈ actions, a.Brings Object.Tidy fun m => m.wall.Valid) {i : Nat} {t : Table}
    (ht : ((empty catalog limits).run actions).tables[i]? = some t) :
    AllHold (fun o => o.Tidy ∧ o.metadata.generation.isSome = true) t.records :=
  (holds_run Object.lasting_tidy (fun _ _ _ h => ⟨h.1.with_metadata rfl
    (h.1.metadata.of_same rfl rfl rfl), h.2⟩) catalog limits hactions).records i t ht

/-- **What a client reads it can write back.** -/
theorem wroteBack (hregular : ∀ d ∈ catalog.definitions, d.kind.Regular) {actions : List Action}
    (hactions : ∀ a ∈ actions, a.Brings Object.Tidy fun m => m.wall.Valid) {s : Store}
    (hs : s = (empty catalog limits).run actions) (hversion : s.version < UInt64.size) {c : Client}
    {i : Nat} {t : Table} (hfind : s.find c.kind = .ok i) (ht : s.tables[i]? = some t)
    (hrunning : t.stopped = false) (hdecode : c.resource.decode? = t.definition.kind.decode?)
    {name : String} {document : Json} (hget : c.get s name = .ok document) (m : Moment) :
    ∃ r new again actions', c.WroteBack m name document s i t r new again ∧
      (c.replace s m name document).2 = (empty catalog limits).run actions' ∧
      ∀ a ∈ actions', a.Brings Object.Tidy fun m => m.wall.Valid := by
  have hfollows := hs ▸ follows_reached catalog limits actions
  have hk : t.definition.kind.Regular := regular_reached hregular actions (hs ▸ ht)
  obtain ⟨r, hr, hin, hdocument⟩ := (Client.get_eq_ok_iff hfind ht).mp hget
  rw [hdecode] at hdocument
  have hplaced := (hfollows.tables i t ht).filed (c.key name) r hr
  have hrecord : r.version ≤ s.version := hfollows.record_version_le ht (SortedMap.mem_of_get? hr)
  obtain ⟨htidy, hgeneration⟩ := tidy_reached hactions (hs ▸ ht) (c.key name) r hr
  obtain ⟨w, hw, hreread⟩ := hk.exists_reread htidy hdocument
  obtain ⟨new, hnew⟩ : ∃ new, new =
      (t.composed none r.object w).succeeding r.object s.version.next := ⟨_, rfl⟩
  have hresult := Client.replace_reread (m := m) hfind ht hrunning hr hin hplaced
    (Nat.lt_of_le_of_lt hrecord hversion) hw hreread hnew
  have hwritten : r.object.WrittenBack t.definition document s.version.next new :=
    hnew ▸ hreread.writtenBack hplaced.types_eq htidy hgeneration s.version.next
  -- the replacement is one more action of the run, and brings a tidy object
  obtain ⟨actions', hrun, hbrings⟩ :
      ∃ actions', (c.replace s m name document).2 = (empty catalog limits).run actions' ∧
        ∀ a ∈ actions', a.Brings Object.Tidy fun m => m.wall.Valid := by
    refine ⟨_, Client.carryOut_reached hs c m (.replace name document),
      List.forall_mem_append.mpr ⟨hactions, Client.actions_tidy (fun document' heq => ?_) nofun⟩⟩
    obtain rfl := Option.some.inj heq
    exact hk.sorted_members hdocument
  obtain ⟨t', ht', hrunning', hdefinition, hrecords⟩ :
      ∃ t', (c.replace s m name document).2.tables[i]? = some t' ∧ t'.stopped = false ∧
        t'.definition = t.definition ∧
        t'.records = SortedMap.insert t.records (c.key name) ⟨new, s.version.next⟩ := by
    rw [hresult]
    exact ⟨_, tables_absorb_self ht _, hrunning, rfl, rfl⟩
  have hstored : SortedMap.get? t'.records (c.key name) = some ⟨new, s.version.next⟩ := by
    rw [hrecords, SortedMap.get?_insert_self]
  -- everything in a store is valid for its kind, so the new object has a document too
  obtain ⟨again, hagain⟩ : ∃ again, t.definition.kind.decode? new.toJson = some again := by
    have hdecodes : ((empty catalog limits).run actions').Decodes := decodes_run
      (fun d hd => (hregular d hd).formed) fun a ha => (hbrings a ha).imp fun _ _ => trivial
    have hvalid := (hdecodes.records i t' (hrun ▸ ht') _ _ hstored).valid
    rw [hdefinition, Definition.validate_eq_ok_iff] at hvalid
    exact Option.isSome_iff_exists.mp hvalid.2
  refine ⟨r, new, again, actions', ⟨hr, hwritten, ?_, ⟨t', ht', hdefinition, hrunning', hrecords⟩,
    ?_, ?_, ?_⟩, hrun, hbrings⟩
  · rw [hresult]
    exact Client.decode_eq_ok_iff.mpr (hdecode ▸ hagain)
  · rw [hresult]
    rfl
  · have hkinds := sameKinds_replace hfollows c m name document
    have hcontains : c.view.scope.contains new = c.view.scope.contains r.object :=
      Scope.contains_congr (by rw [hwritten.metadata_eq]) (by rw [hwritten.metadata_eq])
    exact (Client.get_eq_ok_iff ((hkinds.find_eq c.kind).trans hfind) ht').mpr
      ⟨_, hstored, hcontains.trans hin, hdecode ▸ hagain⟩
  · exact fun key hkey => hk.member?_writtenBack hdocument hagain hwritten hkey

/-- **Every object that a client reads can be written back.** On every store that runs, whatever was
done to it with objects as documents decode, and for every client whose type is that of its table:
if a name is read, then writing back what was read succeeds. The object keeps its type and its
metadata but for the resource version and the generation, and its data become what the type shows of
them. If no part of a type was left among the data, then they and the generation stay exactly if the
document shows the data as they are. From then on it does: writing back once more leaves the data
and the generation. -/
theorem typed_write_back (hregular : ∀ d ∈ catalog.definitions, d.kind.Regular)
    {actions : List Action} (hactions : ∀ a ∈ actions, a.Brings Object.Tidy fun m => m.wall.Valid)
    {s : Store} (hs : s = (empty catalog limits).run actions) (hversion : s.version < UInt64.size)
    {c : Client} {i : Nat} {t : Table} (hfind : s.find c.kind = .ok i) (ht : s.tables[i]? = some t)
    (hrunning : t.stopped = false) (hdecode : c.resource.decode? = t.definition.kind.decode?)
    {name : String} {document : Json} (hget : c.get s name = .ok document) (m : Moment) :
    ∃ r new again, c.WroteBack m name document s i t r new again ∧
      ∀ (m' : Moment) (t' : Table), s.version.next < UInt64.size →
        (c.replace s m name document).2.tables[i]? = some t' →
        ∃ new' again', c.WroteBack m' name again (c.replace s m name document).2 i t'
            ⟨new, s.version.next⟩ new' again' ∧
          new'.data = new.data ∧ new'.metadata.generation = new.metadata.generation := by
  obtain ⟨r, new, again, actions', h, hs', hactions'⟩ :=
    wroteBack hregular hactions hs hversion hfind ht hrunning hdecode hget m
  refine ⟨r, new, again, h, fun m' t' hversion' ht' => ?_⟩
  have hkinds := sameKinds_replace (hs ▸ follows_reached catalog limits actions) c m name document
  obtain ⟨t'', ht'', hdefinition, hrunning', hrecords⟩ := h.table_eq
  obtain rfl := Option.some.inj (ht'.symm.trans ht'')
  obtain ⟨r', new', again', -, h', -, -⟩ := wroteBack hregular hactions' hs'
    (h.version_eq ▸ hversion') ((hkinds.find_eq c.kind).trans hfind) ht' hrunning'
    (hdefinition ▸ hdecode) h.get_eq m'
  obtain rfl : r' = ⟨new, s.version.next⟩ := by
    have hrecord := h'.record_eq
    rw [hrecords, SortedMap.get?_insert_self] at hrecord
    exact (Option.some.inj hrecord).symm
  -- the document that is answered shows the data as they were written
  have hshows : t'.definition.Shows again new := by
    intro key hkey hstatus
    have hne : key ≠ "metadata" := fun heq => hkey (mem_headKeys_iff.mpr (Or.inr (Or.inr heq)))
    rw [h.shown_eq key hne]
    exact (h.object.data_eq key hkey (hdefinition ▸ hstatus)).symm
  obtain ⟨hdata, hgeneration⟩ := (h'.object.kept_iff h.object.head_none).mpr hshows
  exact ⟨new', again', h', hdata, hgeneration⟩

/-! ### Config maps -/

/-- A config map with an entry. -/
def notedConfig : Json.Members :=
  [("apiVersion", .str "v1"), ("data", .obj [("k", .str "v")]), ("kind", .str "ConfigMap"),
    ("metadata", .obj [("name", .str "a"), ("namespace", .str "default")])]

/-- The creation of the config map that a document decodes as. -/
def configFrom (members : Json.Members) : List Action :=
  match Object.decode (.obj members) with
  | .ok o => [configCall (.create o)]
  | .error _ => []

/-- The config map is created and patched. -/
def notedActions : List Action :=
  configFrom notedConfig ++
    [configCall (.patch ⟨some "default", "a"⟩ none (.merge (.obj [("immutable", .bool true)])))]

def notedStore : Store := (empty Client.configCatalog ⟨2, 1000, 2⟩).run notedActions

theorem typed_write_back_configs :
    ∃ t document r new again, notedStore.version < UInt64.size ∧
      notedStore.find "ConfigMap" = .ok 0 ∧ notedStore.tables[0]? = some t ∧ t.stopped = false ∧
      Client.configClient.get notedStore "a" = .ok document ∧
      Client.configClient.WroteBack ⟨1, ⟨2024, 1, 1, 0, 0, 0, 0⟩, "u", "s"⟩ "a" document notedStore
        0 t r new again ∧
      t.definition.Shows document r.object ∧ r.object.metadata.generation = some 2 ∧
      new.data = r.object.data ∧ new.metadata.generation = some 2 := by
  have hregular : ∀ d ∈ Client.configCatalog.definitions, d.kind.Regular := by
    intro d hd
    obtain rfl := List.mem_singleton.mp hd
    exact Kind.regular_known (by simp [Kind.known, Definition.ofKind])
  have hactions : ∀ a ∈ notedActions, a.Brings Object.Tidy fun m => m.wall.Valid := by
    have hcreate : ∀ a ∈ configFrom notedConfig, a.Brings Object.Tidy fun m => m.wall.Valid := by
      intro a ha
      have hsorted : SortedMap.Sorted notedConfig := by decide
      obtain rfl := List.mem_singleton.mp ha
      exact ⟨Object.tidy_of_decode hsorted rfl, by constructor <;> decide⟩
    refine List.forall_mem_append.mpr ⟨hcreate, ?_⟩
    exact List.forall_mem_singleton.mpr trivial
  have hversion : notedStore.version < UInt64.size := by
    rw [show notedStore.version = 2 from rfl]
    decide
  have hfind : notedStore.find Client.configClient.kind = .ok 0 := rfl
  obtain ⟨t, r, metadata, ht, hrunning, hdecode, hget, hr, hdata, hgeneration⟩ :
      ∃ t r metadata, notedStore.tables[0]? = some t ∧ t.stopped = false ∧
        Client.configClient.resource.decode? = t.definition.kind.decode? ∧
        Client.configClient.get notedStore "a" = .ok (.obj [("apiVersion", .str "v1"),
          ("data", .obj [("k", .str "v")]), ("immutable", .bool true), ("kind", .str "ConfigMap"),
          ("metadata", metadata)]) ∧
        SortedMap.get? t.records (Client.configClient.key "a") = some r ∧
        r.object.data = [("data", .obj [("k", .str "v")]), ("immutable", .bool true)] ∧
        r.object.metadata.generation = some 2 :=
    ⟨_, _, _, rfl, rfl, rfl, rfl, rfl, rfl, rfl⟩
  obtain ⟨r', new, again, h, -⟩ := typed_write_back hregular hactions rfl hversion hfind ht hrunning
    hdecode hget ⟨1, ⟨2024, 1, 1, 0, 0, 0, 0⟩, "u", "s"⟩
  obtain rfl := Option.some.inj (hr.symm.trans h.record_eq)
  have hshows : t.definition.Shows (.obj [("apiVersion", .str "v1"),
      ("data", .obj [("k", .str "v")]), ("immutable", .bool true), ("kind", .str "ConfigMap"),
      ("metadata", metadata)]) r.object := by
    intro key hkey _
    obtain ⟨hversion, hkind, hmetadata⟩ := notMem_headKeys_iff.mp hkey
    simp [Json.member?, Json.members, hdata, SortedMap.get?_cons, hversion.symm, hkind.symm,
      hmetadata.symm]
  obtain ⟨hkept, hsame⟩ := (h.object.kept_iff fun key hkey => by
    rcases mem_headKeys_iff.mp hkey with rfl | rfl | rfl <;> rw [hdata] <;> rfl).mpr hshows
  exact ⟨t, _, r, new, again, hversion, rfl, ht, hrunning, hget, h, hshows, hgeneration, hkept,
    hsame.trans hgeneration⟩

/-- **A member that is lost.** No type of config maps has the member, so it is not among what the
client reads, and when that is written back it is gone and the generation is the next one. A store
that was shut down can be read, but nothing is written back to it. -/
theorem unknown_member_lost :
    ∃ s document again t t' r r', s = (empty Client.configCatalog ⟨2, 1000, 2⟩).run (configFrom
        (SortedMap.insert Object.strangeConfig "extra" (.int 1))) ∧
      Client.configClient.get s "a" = .ok document ∧
      s.tables[0]? = some t ∧ SortedMap.get? t.records ⟨some "default", "a"⟩ = some r ∧
      r.object.data = [("extra", .int 1)] ∧ r.object.metadata.generation = some 1 ∧
      (Client.configClient.replace s ⟨1, ⟨2024, 1, 1, 0, 0, 0, 0⟩, "u", "s"⟩ "a" document).1 =
        .ok again ∧
      (Client.configClient.replace s ⟨1, ⟨2024, 1, 1, 0, 0, 0, 0⟩, "u", "s"⟩ "a"
        document).2.tables[0]? = some t' ∧
      SortedMap.get? t'.records ⟨some "default", "a"⟩ = some r' ∧
      r'.object.data = [] ∧ r'.object.metadata.generation = some 2 ∧
      Client.configClient.get s.shutdown "a" = .ok document ∧
      (Client.configClient.replace s.shutdown ⟨1, ⟨2024, 1, 1, 0, 0, 0, 0⟩, "u", "s"⟩ "a"
        document).1 = .error .shuttingDown :=
  ⟨_, _, _, _, _, _, _, rfl, rfl, rfl, rfl, rfl, rfl, rfl, rfl, rfl, rfl, rfl, rfl, rfl⟩

end Store

end ControlPlane
