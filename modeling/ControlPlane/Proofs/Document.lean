import ControlPlane.Object
import ControlPlane.Proofs.NormalForm

/-!
# Objects and their documents

The metadata of an object that was decoded are in normal form, and its data hold no part of its type
and no metadata. So every member of its document is a part of the object and can be told from it.

* `Metadata.get?_toMembers`, `Object.get?_toMembers`: the members of the document, one by one.
* `Metadata.toMembers_ofMembers`: metadata in normal form are not changed by taking them apart.
* `Object.decode_eq_ok_iff`: what a document decodes as.
* `Object.Normal`, `Object.normal_of_decode`: what decoding gives.
-/

namespace ControlPlane

namespace SortedMap

variable {κ α : Type} [DecidableEq κ]

/-- Filtering the entries of a map by their keys. -/
theorem get?_filter_key (m : SortedMap κ α) (p : κ → Bool) (k : κ) :
    get? (m.filter fun e => p e.1) k = if p k then get? m k else none := by
  induction m with
  | nil => simp
  | cons e m ih =>
    obtain ⟨j, v⟩ := e
    rw [List.filter_cons, get?_cons]
    dsimp only
    by_cases hk : j = k
    · subst hk
      by_cases hj : p j = true
      · rw [if_pos hj, get?_cons, if_pos rfl, if_pos rfl, if_pos hj]
      · rw [if_neg hj, ih, if_neg hj, if_neg hj]
    · rw [if_neg hk]
      by_cases hj : p j = true
      · rw [if_pos hj, get?_cons, if_neg hk, ih]
      · rw [if_neg hj, ih]

end SortedMap

/-! ## Metadata -/

namespace Metadata

/-- The members that are fields of their own, with their values. -/
def parts (m : Metadata) : List (String × Option Json) :=
  [("name", m.name.map Json.str), ("namespace", m.ns.map Json.str),
    ("generateName", m.generateName.map Json.str), ("uid", m.uid.map Json.str),
    ("resourceVersion", m.resourceVersion.map Json.str),
    ("creationTimestamp", m.creationTimestamp.map Json.str),
    ("generation", m.generation.map Json.int), ("labels", m.labels.map labelsJson)]

/-- Puts a value, if there is one. -/
def put (members : Json.Members) (e : String × Option Json) : Json.Members :=
  match e.2 with
  | some value => SortedMap.insert members e.1 value
  | none => members

theorem toMembers_eq (m : Metadata) : m.toMembers = m.parts.foldl put m.rest := rfl

theorem get?_put (members : Json.Members) (key : String) (value : Option Json) (k : String) :
    SortedMap.get? (put members (key, value)) k =
      if k = key then value.or (SortedMap.get? members k) else SortedMap.get? members k := by
  unfold put
  cases value with
  | none => simp
  | some value =>
    by_cases hk : k = key
    · subst hk
      rw [SortedMap.get?_insert_self, if_pos rfl, Option.some_or]
    · rw [SortedMap.get?_insert_of_ne _ _ hk, if_neg hk]

theorem get?_foldl_put {parts : List (String × Option Json)}
    (hdistinct : (parts.map (·.1)).Nodup) (members : Json.Members) (k : String) :
    SortedMap.get? (parts.foldl put members) k =
      ((parts.lookup k).join).or (SortedMap.get? members k) := by
  induction parts generalizing members with
  | nil => simp
  | cons e parts ih =>
    obtain ⟨key, value⟩ := e
    obtain ⟨hkey, hdistinct⟩ := List.nodup_cons.mp hdistinct
    rw [List.foldl_cons, ih hdistinct, get?_put]
    by_cases hk : k = key
    · subst hk
      have hnone : parts.lookup k = none := by
        rw [List.lookup_eq_none_iff]
        intro e he
        have hne : e.1 ≠ k := fun h => hkey (List.mem_map.mpr ⟨e, he, h⟩)
        simpa using hne.symm
      simp [hnone]
    · have hne : (k == key) = false := by simpa using hk
      rw [List.lookup_cons, hne, if_neg hk]

/-- The members of the metadata, one by one. -/
theorem get?_toMembers (m : Metadata) (k : String) :
    SortedMap.get? m.toMembers k = ((m.parts.lookup k).join).or (SortedMap.get? m.rest k) := by
  rw [toMembers_eq]
  exact get?_foldl_put (show (m.parts.map (·.1)).Nodup from (by decide : fieldNames.Nodup)) m.rest k

theorem sorted_put {members : Json.Members} (h : SortedMap.Sorted members)
    (e : String × Option Json) : SortedMap.Sorted (put members e) := by
  unfold put
  split
  · exact SortedMap.sorted_insert h _ _
  · exact h

theorem sorted_toMembers {m : Metadata} (h : SortedMap.Sorted m.rest) :
    SortedMap.Sorted m.toMembers := by
  have hfold (parts : List (String × Option Json)) (members : Json.Members)
      (h : SortedMap.Sorted members) : SortedMap.Sorted (parts.foldl put members) := by
    induction parts generalizing members with
    | nil => exact h
    | cons e parts ih => exact ih _ (sorted_put h e)
  rw [toMembers_eq]
  exact hfold m.parts m.rest h

/-- The members are in normal form. -/
def IsNormal (members : Json.Members) : Prop :=
  Schema.objectMeta.decode? (.obj members) = some (.obj members)

theorem isNormal_nil : IsNormal [] := rfl

theorem isNormal_of_decode? {value : Json} {members : Json.Members}
    (h : Schema.objectMeta.decode? value = some (.obj members)) : IsNormal members :=
  Shape.decode?_decode? _ Shape.isRegular_objectMeta _ _ h

theorem objectMeta_decode? (members : Json.Members) :
    Schema.objectMeta.decode? (.obj members) =
      (Shape.decodeFields? Schema.objectMeta.fields members).map .obj := rfl

theorem isNormal_iff {members : Json.Members} :
    IsNormal members ↔
      Shape.decodeFields? Schema.objectMeta.fields members = some members := by
  rw [IsNormal, objectMeta_decode?, Option.map_eq_some_iff]
  constructor
  · rintro ⟨out, hout, heq⟩
    rw [hout, Json.obj.inj heq]
  · intro h
    exact ⟨members, h, rfl⟩

/-- The members that are fields of their own and hold a text or a time. -/
def textKeys : List String :=
  ["name", "namespace", "generateName", "uid", "resourceVersion", "creationTimestamp"]

theorem mem_fields_of_textKey {key : String} (h : key ∈ textKeys) :
    (⟨key, .optional⟩, .string) ∈ Schema.objectMeta.fields ∨
      (⟨key, .optional⟩, .time) ∈ Schema.objectMeta.fields := by
  simp only [textKeys, List.mem_cons, List.not_mem_nil, or_false] at h
  rcases h with rfl | rfl | rfl | rfl | rfl | rfl <;>
    simp [Schema.objectMeta, Shape.fields, optional]

theorem mem_fields_generation :
    (⟨"generation", .optional⟩, .int64) ∈ Schema.objectMeta.fields := by
  simp [Schema.objectMeta, Shape.fields, optional]

namespace IsNormal

variable {members : Json.Members}

theorem sorted (h : IsNormal members) : SortedMap.Sorted members :=
  Shape.sorted_decodeFields? Shape.ascend_objectMeta (isNormal_iff.mp h)

/-- A member in normal form has the shape of the member of its name. -/
theorem exists_decode? (h : IsNormal members) {name : String} {shape : Shape}
    (hmem : (⟨name, .optional⟩, shape) ∈ Schema.objectMeta.fields) {value : Json}
    (hvalue : SortedMap.get? members name = some value) : ∃ v, shape.decode? v = some value := by
  have hget := Shape.get?_decodeFields? Shape.ascend_objectMeta (isNormal_iff.mp h) hmem
  rw [hvalue] at hget
  obtain ⟨v, -, hv⟩ := Option.bind_eq_some_iff.mp hget.symm
  exact ⟨v, hv⟩

theorem str_of_get? (h : IsNormal members) {key : String} (hkey : key ∈ textKeys) {value : Json}
    (hvalue : SortedMap.get? members key = some value) : ∃ s, value = .str s := by
  rcases mem_fields_of_textKey hkey with hmem | hmem
  · obtain ⟨v, hv⟩ := h.exists_decode? hmem hvalue
    cases v with
    | str s => exact ⟨s, (Option.some.inj hv).symm⟩
    | _ => cases hv
  · obtain ⟨v, hv⟩ := h.exists_decode? hmem hvalue
    cases v with
    | str s =>
      obtain ⟨t, -, rfl⟩ := Option.map_eq_some_iff.mp hv
      exact ⟨_, rfl⟩
    | _ => cases hv

theorem int_of_get? (h : IsNormal members) {value : Json}
    (hvalue : SortedMap.get? members "generation" = some value) : ∃ n, value = .int n := by
  obtain ⟨v, hv⟩ := h.exists_decode? mem_fields_generation hvalue
  cases v with
  | num n =>
    cases n with
    | int n =>
      rw [Shape.decode?] at hv
      split at hv
      · exact ⟨n, (Option.some.inj hv).symm⟩
      · cases hv
    | float bits => cases hv
  | _ => cases hv

/-- A map of strings in normal form is a map of labels. -/
theorem exists_labels {entries out : Json.Members}
    (h : (entries.mapM fun e => (Shape.decode? .string e.2).map fun v => (e.1, v)) = some out) :
    ∃ labels : Labels, out = labels.map fun e => (e.1, .str e.2) := by
  induction entries generalizing out with
  | nil =>
    obtain rfl := Option.some.inj h
    exact ⟨[], rfl⟩
  | cons e entries ih =>
    simp only [List.mapM_cons, Option.bind_eq_bind, Option.bind_eq_some_iff] at h
    obtain ⟨y, hy, out', hout', h⟩ := h
    obtain rfl := Option.some.inj h
    obtain ⟨labels, rfl⟩ := ih hout'
    obtain ⟨v, hv, rfl⟩ := Option.map_eq_some_iff.mp hy
    obtain ⟨key, value⟩ := e
    cases value with
    | str s =>
      obtain rfl := Option.some.inj hv
      exact ⟨(key, s) :: labels, rfl⟩
    | _ => cases hv

theorem labels_of_get? (h : IsNormal members) {value : Json}
    (hvalue : SortedMap.get? members "labels" = some value) :
    ∃ labels, value = labelsJson labels := by
  have hmem : (⟨"labels", .optional⟩, .map .string) ∈ Schema.objectMeta.fields := by
    simp [Schema.objectMeta, Shape.fields, optional]
  obtain ⟨v, hv⟩ := h.exists_decode? hmem hvalue
  cases v with
  | obj entries =>
    obtain ⟨out, hout, rfl⟩ := Option.map_eq_some_iff.mp hv
    obtain ⟨labels, rfl⟩ := exists_labels hout
    exact ⟨labels, rfl⟩
  | _ => cases hv

end IsNormal

theorem labelsOf?_labelsJson (labels : Labels) : labelsOf? (labelsJson labels) = some labels := by
  rw [labelsJson, labelsOf?]
  induction labels with
  | nil => rfl
  | cons e labels ih =>
    rw [List.map_cons, List.mapM_cons, ih]
    rfl

/-- A value is what it was read from, if it was written. -/
theorem map_bind_of_written {α : Type} {value : Option Json} {read : Json → Option α}
    {write : α → Json} (hread : ∀ a, read (write a) = some a)
    (hvalue : ∀ v, value = some v → ∃ a, v = write a) : (value.bind read).map write = value := by
  cases value with
  | none => rfl
  | some v =>
    obtain ⟨a, rfl⟩ := hvalue v rfl
    rw [Option.bind_some, hread, Option.map_some]

/-- **Metadata in normal form are not changed by taking them apart.** -/
theorem toMembers_ofMembers {members : Json.Members} (h : IsNormal members) :
    (ofMembers members).toMembers = members := by
  have hrest : SortedMap.Sorted (ofMembers members).rest := SortedMap.sorted_filter h.sorted _
  refine SortedMap.ext (sorted_toMembers hrest) h.sorted fun k => ?_
  have hrest : SortedMap.get? (ofMembers members).rest k =
      if (!fieldNames.contains k) = true then SortedMap.get? members k else none :=
    SortedMap.get?_filter_key members (fun k => !fieldNames.contains k) k
  rw [get?_toMembers, hrest]
  by_cases hk : k ∈ fieldNames
  · rw [if_neg (by simpa using hk), Option.or_none]
    have htext (key : String) (hkey : key ∈ textKeys) :
        (((SortedMap.get? members key).bind Json.text?).map Json.str) =
          SortedMap.get? members key :=
      map_bind_of_written (fun _ => rfl) fun v hv => h.str_of_get? hkey hv
    simp only [fieldNames, List.mem_cons, List.not_mem_nil, or_false] at hk
    rcases hk with rfl | rfl | rfl | rfl | rfl | rfl | rfl | rfl
    · exact htext "name" (by simp [textKeys])
    · exact htext "namespace" (by simp [textKeys])
    · exact htext "generateName" (by simp [textKeys])
    · exact htext "uid" (by simp [textKeys])
    · exact htext "resourceVersion" (by simp [textKeys])
    · exact htext "creationTimestamp" (by simp [textKeys])
    · exact map_bind_of_written (fun _ => rfl) fun _ hv => h.int_of_get? hv
    · exact map_bind_of_written labelsOf?_labelsJson fun _ hv => h.labels_of_get? hv
  · rw [if_pos (by simpa using hk)]
    have hnone : (ofMembers members).parts.lookup k = none := by
      rw [List.lookup_eq_none_iff]
      intro e he
      have hne : k ≠ e.1 := by
        rintro rfl
        exact hk (List.mem_map_of_mem he : e.1 ∈ (ofMembers members).parts.map (·.1))
      simpa using hne
    rw [hnone]
    rfl

/-- Metadata as decoding gives them. -/
def Normal (m : Metadata) : Prop := ∃ members, IsNormal members ∧ m = .ofMembers members

namespace Normal

variable {m : Metadata}

theorem isNormal_toMembers (h : m.Normal) : IsNormal m.toMembers := by
  obtain ⟨members, hnormal, rfl⟩ := h
  rw [toMembers_ofMembers hnormal]
  exact hnormal

theorem ofMembers_toMembers (h : m.Normal) : ofMembers m.toMembers = m := by
  obtain ⟨members, hnormal, rfl⟩ := h
  rw [toMembers_ofMembers hnormal]

end Normal

end Metadata

/-! ## Objects -/

namespace Object

/-- An object as decoding gives it. -/
structure Normal (o : Object) : Prop where
  metadata : o.metadata.Normal
  metadata_none : SortedMap.get? o.data "metadata" = none
  apiVersion_none : SortedMap.get? o.data "apiVersion" = none
  /-- The data of an object with a type hold no part of it. -/
  kind_none : o.types.isSome = true → SortedMap.get? o.data "kind" = none

theorem get?_fill (members : Json.Members) (key : String) (value : Json) (k : String) :
    SortedMap.get? (fill members key value) k =
      (SortedMap.get? members k).or (if k = key then some value else none) := by
  unfold fill SortedMap.has
  by_cases hk : k = key
  · subst hk
    rw [if_pos rfl]
    cases h : SortedMap.get? members k with
    | some v => rw [Option.isSome_some, if_pos rfl, h, Option.some_or]
    | none => rw [Option.isSome_none, if_neg (by simp), SortedMap.get?_insert_self, Option.none_or]
  · rw [if_neg hk, Option.or_none]
    split
    · rfl
    · rw [SortedMap.get?_insert_of_ne _ _ hk]

/-- What the type and the metadata contribute to the document of an object. -/
def head (o : Object) (key : String) : Option Json :=
  if key = "metadata" then some (.obj o.metadata.toMembers)
  else if key = "kind" then o.types.map fun types => .str types.kind
  else if key = "apiVersion" then o.types.map fun types => .str types.apiVersion
  else none

/-- **The members of the document of an object, one by one.** -/
theorem get?_toMembers (o : Object) (k : String) :
    SortedMap.get? o.toMembers k = (SortedMap.get? o.data k).or (o.head k) := by
  unfold toMembers head
  dsimp only
  cases o.types with
  | none =>
    rw [get?_fill]
    simp
  | some types =>
    rw [get?_fill, get?_fill, get?_fill, Option.or_assoc, Option.or_assoc]
    congr 1
    by_cases hmetadata : k = "metadata"
    · simp [hmetadata]
    · by_cases hkind : k = "kind"
      · simp [hkind]
      · simp [hmetadata, hkind]

/-- A member with any other key is shown as the data hold it. -/
theorem get?_toMembers_other (o : Object) {k : String} (hversion : k ≠ "apiVersion")
    (hkind : k ≠ "kind") (hmetadata : k ≠ "metadata") :
    SortedMap.get? o.toMembers k = SortedMap.get? o.data k := by
  rw [get?_toMembers, head, if_neg hmetadata, if_neg hkind, if_neg hversion, Option.or_none]

theorem sorted_toMembers {o : Object} (h : SortedMap.Sorted o.data) :
    SortedMap.Sorted o.toMembers := by
  have hfill (members : Json.Members) (hm : SortedMap.Sorted members) (key : String)
      (value : Json) : SortedMap.Sorted (fill members key value) := by
    unfold fill
    split
    · exact hm
    · exact SortedMap.sorted_insert hm _ _
  unfold toMembers
  dsimp only
  split
  · exact hfill _ (hfill _ (hfill _ h _ _) _ _) _ _
  · exact hfill _ h _ _

/-! ### Decoding -/

/-- The members of the metadata of a document, in normal form; none if there are no metadata. -/
def metadataOf? (members : Json.Members) : Option Json.Members :=
  match SortedMap.get? members "metadata" with
  | none => some []
  | some value => (Schema.objectMeta.decode? value).bind Json.members?

/-- **What a document decodes as.** -/
theorem decode_eq_ok_iff {json : Json} {o : Object} :
    decode json = .ok o ↔ ∃ members metadata, json = .obj members ∧
      metadataOf? members = some metadata ∧
      o = ⟨typesOf? members, .ofMembers metadata,
        members.filter fun e => !isHead members e.1⟩ := by
  cases json with
  | obj members =>
    have hdecode : decode (.obj members) =
        (metadataOf? members).elim (.error (.invalid .undecodable)) fun metadata =>
          .ok ⟨typesOf? members, .ofMembers metadata,
            members.filter fun e => !isHead members e.1⟩ := by
      cases hget : SortedMap.get? members "metadata" with
      | none => simp only [decode, metadataOf?, hget, Option.elim_some]
      | some value =>
        simp only [decode, metadataOf?, hget]
        cases (Schema.objectMeta.decode? value).bind Json.members? <;> rfl
    rw [hdecode]
    cases hmetadata : metadataOf? members with
    | none =>
      constructor
      · intro h
        cases h
      · rintro ⟨members', metadata, hjson, h, -⟩
        obtain rfl := Json.obj.inj hjson
        rw [hmetadata] at h
        cases h
    | some metadata =>
      constructor
      · intro h
        exact ⟨members, metadata, rfl, hmetadata, (Except.ok.inj h).symm⟩
      · rintro ⟨members', metadata', hjson, h, rfl⟩
        obtain rfl := Json.obj.inj hjson
        rw [hmetadata] at h
        obtain rfl := Option.some.inj h
        rfl
  | _ =>
    constructor
    · intro h
      cases h
    · rintro ⟨members, metadata, hjson, -⟩
      cases hjson

theorem isNormal_of_metadataOf? {members metadata : Json.Members}
    (h : metadataOf? members = some metadata) : Metadata.IsNormal metadata := by
  unfold metadataOf? at h
  split at h
  · obtain rfl := Option.some.inj h
    exact Metadata.isNormal_nil
  · next value _ =>
    obtain ⟨json, hjson, hmembers⟩ := Option.bind_eq_some_iff.mp h
    cases json with
    | obj members =>
      obtain rfl := Option.some.inj hmembers
      exact Metadata.isNormal_of_decode? hjson
    | _ => cases hmembers

theorem typesOf?_eq_some_iff {members : Json.Members} {types : TypeMeta} :
    typesOf? members = some types ↔
      SortedMap.get? members "apiVersion" = some (.str types.apiVersion) ∧
      SortedMap.get? members "kind" = some (.str types.kind) := by
  unfold typesOf?
  constructor
  · intro h
    split at h
    · next apiVersion kind hversion hkind =>
      obtain rfl := Option.some.inj h
      exact ⟨hversion, hkind⟩
    · cases h
  · rintro ⟨hversion, hkind⟩
    simp only [hversion, hkind]

/-- The data of a document are its members that are no part of its head. -/
theorem get?_data (members : Json.Members) (k : String) :
    SortedMap.get? (members.filter fun e => !isHead members e.1) k =
      if isHead members k then none else SortedMap.get? members k := by
  rw [SortedMap.get?_filter_key members (fun k => !isHead members k) k]
  cases isHead members k <;> rfl

theorem isHead_kind {members : Json.Members} {types : TypeMeta}
    (h : typesOf? members = some types) : isHead members "kind" = true := by
  simp only [isHead, (typesOf?_eq_some_iff.mp h).1]

/-- A member with any other key is part of the data. -/
theorem isHead_other {k : String} (hversion : k ≠ "apiVersion") (hkind : k ≠ "kind")
    (hmetadata : k ≠ "metadata") (members : Json.Members) : isHead members k = false := by
  unfold isHead
  split
  · exact absurd rfl hversion
  · exact absurd rfl hmetadata
  · exact absurd rfl hkind
  · rfl

/-- The data of an object, one by one. -/
theorem get?_data_of_decode {members : Json.Members} {o : Object}
    (h : decode (.obj members) = .ok o) (k : String) :
    SortedMap.get? o.data k = if isHead members k then none else SortedMap.get? members k := by
  obtain ⟨members', metadata, heq, -, rfl⟩ := decode_eq_ok_iff.mp h
  obtain rfl := Json.obj.inj heq
  exact get?_data members k

/-- The data of an object keep the order of its document. -/
theorem sorted_data_of_decode {members : Json.Members} {o : Object}
    (hmembers : SortedMap.Sorted members) (h : decode (.obj members) = .ok o) :
    SortedMap.Sorted o.data := by
  obtain ⟨members', metadata, heq, -, rfl⟩ := decode_eq_ok_iff.mp h
  obtain rfl := Json.obj.inj heq
  exact SortedMap.sorted_filter hmembers _

/-- **What decoding gives is normal.** -/
theorem normal_of_decode {json : Json} {o : Object} (h : decode json = .ok o) : o.Normal := by
  obtain ⟨members, metadata, -, hmetadata, rfl⟩ := decode_eq_ok_iff.mp h
  refine ⟨⟨metadata, isNormal_of_metadataOf? hmetadata, rfl⟩, ?_, ?_, ?_⟩
  · exact (get?_data members "metadata").trans (if_pos rfl)
  · exact (get?_data members "apiVersion").trans (if_pos rfl)
  · intro htypes
    obtain ⟨types, htypes⟩ := Option.isSome_iff_exists.mp htypes
    exact (get?_data members "kind").trans (if_pos (isHead_kind htypes))

namespace Normal

variable {o : Object}

theorem get?_metadata (h : o.Normal) :
    SortedMap.get? o.toMembers "metadata" = some (.obj o.metadata.toMembers) := by
  rw [get?_toMembers, h.metadata_none]
  rfl

theorem get?_apiVersion (h : o.Normal) :
    SortedMap.get? o.toMembers "apiVersion" = o.types.map fun types => .str types.apiVersion := by
  rw [get?_toMembers, h.apiVersion_none]
  rfl

theorem get?_kind (h : o.Normal) {types : TypeMeta} (htypes : o.types = some types) :
    SortedMap.get? o.toMembers "kind" = some (.str types.kind) := by
  rw [get?_toMembers, h.kind_none (by rw [htypes]; rfl), head, htypes]
  rfl

end Normal

end Object

end ControlPlane
