import ControlPlane.Client
import ControlPlane.Proofs.Document
import ControlPlane.Proofs.KnownKinds

/-!
# Typed objects and their dynamic form

A typed object shows as the normal form of the document it was read from. The store holds it in
another form, which keeps the type and the metadata apart from the other members. Neither changes
what is shown: the normal form of a normal form is itself, for the kinds and for every shape inside
them, and the dynamic form of a typed object is put together again to the same document.

* `Schema.Covered`: the shapes of the kinds, of what is inside them, and of the metadata of lists.
* `Kind.Regular.decode?_typed`: the normal form of a document is its own.
* `Object.exists_partsOf`: a document is taken apart and put together again.
* `Schema.typed_forms_kept`: typed objects survive the dynamic form.
-/

namespace ControlPlane

/-! ## Shapes inside shapes -/

namespace Schema

/-- The metadata of a list. -/
def listMeta : Shape := .record
  [optional "continue" .string, optional "remainingItemCount" .int64,
   optional "resourceVersion" .string, optional "selfLink" .string]

/-- The shapes that documents are made of: those of the members of a known kind, those inside
others, and that of the metadata of lists. -/
inductive Covered : Shape → Prop
  | listMeta : Covered listMeta
  | member {k : Kind} {f : Field × Shape} : k ∈ Kind.known → f ∈ k.fields → Covered f.2
  | item {item : Shape} : Covered (.list item) → Covered item
  | value {value : Shape} : Covered (.map value) → Covered value
  | field {fields : List (Field × Shape)} {f : Field × Shape} : Covered (.record fields) →
      f ∈ fields → Covered f.2

end Schema

namespace Shape

/-- The members of a regular record are regular. -/
theorem isRegular_of_mem {fields : List (Field × Shape)} (h : areRegular fields = true)
    {f : Field × Shape} (hf : f ∈ fields) : f.2.isRegular = true := by
  induction fields with
  | nil => cases hf
  | cons g fields ih =>
    obtain ⟨hshape, -, -, hregular⟩ := areRegular_cons h
    rcases List.mem_cons.mp hf with rfl | hf
    · exact hshape
    · exact ih hregular hf

/-- A member that falls back on an empty value is in the normal form of a record, and in normal form
itself. -/
theorem exists_defaulted {fields : List (Field × Shape)} {members out : Json.Members}
    (hregular : areRegular fields = true) (h : decodeFields? fields members = some out)
    {name : String} {shape : Shape} (hmem : (⟨name, .defaulted⟩, shape) ∈ fields) :
    ∃ normal, SortedMap.get? out name = some normal ∧ decode? shape normal = some normal := by
  induction fields generalizing out with
  | nil => cases hmem
  | cons g fields ih =>
    obtain ⟨field, shape'⟩ := g
    obtain ⟨hshape, -, hnames, hregular⟩ := areRegular_cons hregular
    obtain ⟨rest, hrest, hdecoded⟩ := decodeFields?_cons_iff.mp h
    rcases List.mem_cons.mp hmem with heq | hmem
    · obtain ⟨rfl, rfl⟩ := Prod.mk.inj heq
      cases hdecoded with
      | @given value normal _ hnormal =>
        exact ⟨normal, SortedMap.get?_cons .. |>.trans (if_pos rfl),
          decode?_decode? _ hshape value normal hnormal⟩
      | missing _ hpresence => cases hpresence
      | defaulted _ _ =>
        exact ⟨_, SortedMap.get?_cons .. |>.trans (if_pos rfl), decode?_empty _ hshape⟩
    · obtain ⟨normal, hget, hnormal⟩ := ih hregular hrest hmem
      have hne : field.name ≠ name := ne_of_compare_lt (hnames _ hmem)
      refine ⟨normal, ?_, hnormal⟩
      cases hdecoded with
      | given _ _ => rw [SortedMap.get?_cons, if_neg hne, hget]
      | missing _ _ => exact hget
      | defaulted _ _ => rw [SortedMap.get?_cons, if_neg hne, hget]

end Shape

/-- The shapes that documents are made of are regular. -/
theorem Schema.Covered.isRegular {shape : Shape} (h : Covered shape) : shape.isRegular = true := by
  induction h with
  | listMeta => decide +kernel
  | member hk hf => exact Shape.isRegular_of_mem (Kind.regular_known hk).areRegular hf
  | item _ ih => exact ih
  | value _ ih => exact ih
  | field _ hf ih => exact Shape.isRegular_of_mem ih hf

/-! ## Documents taken apart -/

namespace Object

/-- The object holds the parts of a document, and nothing else: its type, its metadata and its other
members. -/
structure PartsOf (o : Object) (document : Json) (types : TypeMeta) : Prop where
  types_eq : o.types = some types
  metadata_eq : document.member? "metadata" = some (.obj o.metadata.toMembers)
  data_eq : ∀ key, key ≠ "apiVersion" → key ≠ "kind" → key ≠ "metadata" →
    SortedMap.get? o.data key = document.member? key
  /-- Put together, they are the document. -/
  toJson_eq : o.toJson = document

/-- **A document with a type and with metadata in normal form is taken apart and put together
again.** -/
theorem exists_partsOf {members metadata : Json.Members} {types : TypeMeta}
    (hsorted : SortedMap.Sorted members) (htypes : typesOf? members = some types)
    (hmetadata : SortedMap.get? members "metadata" = some (.obj metadata))
    (hnormal : Metadata.IsNormal metadata) :
    ∃ o, decode (.obj members) = .ok o ∧ o.PartsOf (.obj members) types := by
  have hdecode : metadataOf? members = some metadata := by
    rw [metadataOf?, hmetadata]
    exact congrArg (Option.bind · Json.members?) hnormal
  have hparts : (Metadata.ofMembers metadata).toMembers = metadata :=
    Metadata.toMembers_ofMembers hnormal
  obtain ⟨hversion, hkind⟩ := typesOf?_eq_some_iff.mp htypes
  have hdata (key : String) (hv : key ≠ "apiVersion") (hk : key ≠ "kind") (hm : key ≠ "metadata") :
      SortedMap.get? (members.filter fun e => !isHead members e.1) key =
        SortedMap.get? members key := by
    rw [get?_data, isHead_other hv hk hm]
    rfl
  refine ⟨_, decode_eq_ok_iff.mpr ⟨members, metadata, rfl, hdecode, rfl⟩, htypes, ?_, hdata, ?_⟩
  · rw [hparts]
    exact hmetadata
  · refine congrArg Json.obj (SortedMap.ext (sorted_toMembers (SortedMap.sorted_filter hsorted _))
      hsorted fun key => ?_)
    rw [get?_toMembers]
    dsimp only [head]
    rw [htypes, hparts]
    -- each part of the head is no part of the data, and the other members are
    by_cases hm : key = "metadata"
    · subst hm
      rw [get?_data, hmetadata]
      rfl
    by_cases hk : key = "kind"
    · subst hk
      rw [get?_data, isHead_kind htypes, hkind]
      rfl
    by_cases hv : key = "apiVersion"
    · subst hv
      rw [get?_data, hversion]
      rfl
    rw [hdata key hv hk hm, if_neg hm, if_neg hk, if_neg hv, Option.or_none]

end Object

/-! ## Normal forms of a kind -/

namespace Kind

variable {k : Kind} {out : Json.Members}

theorem member?_typed_apiVersion :
    (k.typed out).member? "apiVersion" = some (.str k.apiVersion) := by
  rw [typed, Json.member?, Json.members, SortedMap.get?_insert_of_ne _ _ (by decide),
    SortedMap.get?_insert_self]

theorem member?_typed_kind : (k.typed out).member? "kind" = some (.str k.name) := by
  rw [typed, Json.member?, Json.members, SortedMap.get?_insert_self]

theorem member?_typed_of_ne {key : String} (hversion : key ≠ "apiVersion") (hkind : key ≠ "kind") :
    (k.typed out).member? key = SortedMap.get? out key := by
  rw [typed, Json.member?, Json.members, SortedMap.get?_insert_of_ne _ _ hkind,
    SortedMap.get?_insert_of_ne _ _ hversion]

/-- A document is decoded by the members of its kind, if it names no other type. -/
theorem exists_decodeFields? {w n : Json} (h : k.decode? w = some n) :
    ∃ members out, Shape.decodeFields? k.fields members = some out ∧ n = k.typed out := by
  cases w with
  | obj members =>
    rw [decode?] at h
    split at h
    · obtain ⟨out, hout, rfl⟩ := Option.map_eq_some_iff.mp h
      exact ⟨members, out, hout, rfl⟩
    · cases h
  | _ => cases h

namespace Regular

variable {members : Json.Members}

/-- **The normal form of a document is its own normal form.** -/
theorem decode?_typed (hk : k.Regular) (h : Shape.decodeFields? k.fields members = some out) :
    k.decode? (k.typed out) = some (k.typed out) := by
  have hversion : SortedMap.get? (k.typed out).members "apiVersion" = some (.str k.apiVersion) :=
    member?_typed_apiVersion
  have hkind : SortedMap.get? (k.typed out).members "kind" = some (.str k.name) :=
    member?_typed_kind
  have hagrees : (agrees (k.typed out).members "apiVersion" k.apiVersion &&
      agrees (k.typed out).members "kind" k.name) = true := by
    simp only [agrees, hversion, hkind, beq_self_eq_true, Bool.and_self]
  have hfields : Shape.decodeFields? k.fields (k.typed out).members = some out := by
    rw [← Shape.decodeFields?_decodeFields? k.fields hk.areRegular members out h]
    refine Shape.decodeFields?_congr fun f hf => ?_
    obtain ⟨hversion, hkind⟩ := hk.untyped f hf
    rw [Shape.given?, Shape.given?]
    exact congrArg _ (congrArg _ (member?_typed_of_ne hversion hkind))
  rw [show k.typed out = .obj (k.typed out).members from rfl, decode?, if_pos hagrees, hfields]
  rfl

/-- The members of a document in normal form ascend, whatever it was read from. -/
theorem sorted_typed (hk : k.Regular) (h : Shape.decodeFields? k.fields members = some out) :
    SortedMap.Sorted (k.typed out).members :=
  SortedMap.sorted_insert (SortedMap.sorted_insert
    (Shape.sorted_decodeFields? hk.ascend h) _ _) _ _

/-- The metadata of a document in normal form are in normal form. -/
theorem exists_metadata (hk : k.Regular) (h : Shape.decodeFields? k.fields members = some out) :
    ∃ metadata, SortedMap.get? (k.typed out).members "metadata" = some (.obj metadata) ∧
      Metadata.IsNormal metadata := by
  obtain ⟨value, hvalue, hnormal⟩ := Shape.exists_defaulted hk.areRegular h hk.metadata
  rw [← member?_typed_of_ne (k := k) (by decide) (by decide)] at hvalue
  cases value with
  | obj metadata => exact ⟨metadata, hvalue, hnormal⟩
  | _ => cases hnormal

/-- **A document in normal form is taken apart and put together again.** -/
theorem exists_parts (hk : k.Regular) (h : Shape.decodeFields? k.fields members = some out) :
    ∃ o, Object.decode (k.typed out) = .ok o ∧
      o.PartsOf (k.typed out) ⟨k.apiVersion, k.name⟩ := by
  obtain ⟨metadata, hmetadata, hnormal⟩ := hk.exists_metadata h
  have htypes : Object.typesOf? (k.typed out).members = some ⟨k.apiVersion, k.name⟩ :=
    Object.typesOf?_eq_some_iff.mpr ⟨member?_typed_apiVersion, member?_typed_kind⟩
  exact Object.exists_partsOf (hk.sorted_typed h) htypes hmetadata hnormal

end Regular

end Kind

namespace Schema

/-- **Typed objects survive the dynamic form.** What a typed value shows as, of a known kind or of
any shape inside one, is read again as the same; and as the document of a kind it is taken apart
into an object with its type, its metadata and its other members, which is decoded as the same
document. -/
theorem typed_forms_kept (w n : Json) :
    (∀ shape, Covered shape → shape.decode? w = some n → shape.decode? n = some n) ∧
    ∀ k ∈ Kind.known, k.decode? w = some n →
      k.decode? n = some n ∧
      ∃ o, Object.decode n = .ok o ∧ o.PartsOf n ⟨k.apiVersion, k.name⟩ ∧
        k.resource.decode o = .ok n := by
  constructor
  · intro shape hshape h
    exact Shape.decode?_decode? shape hshape.isRegular w n h
  · intro k hmem h
    have hk : k.Regular := Kind.regular_known hmem
    obtain ⟨members, out, hout, rfl⟩ := Kind.exists_decodeFields? h
    obtain ⟨o, ho, hparts⟩ := hk.exists_parts hout
    have hagain := hk.decode?_typed hout
    refine ⟨hagain, o, ho, hparts, ?_⟩
    rw [Resource.decode, hparts.toJson_eq]
    simp only [Kind.resource, hagain]

/-- The specification of a lease as it may be written. -/
def leaseWritten : Json := .obj [("holder", .str "a"), ("holderIdentity", .null),
  ("renewTime", .str "2024-01-01T02:00:00.1234567+01:00")]

/-- The same as it shows: times are in UTC and to microseconds, and members that are `null` or
unknown are dropped. -/
def leaseShown : Json := .obj [("renewTime", .str "2024-01-01T01:00:00.123456Z")]

/-- A secret as it may be written, whose bytes and namespace are missing. -/
def secretWritten : Json := .obj [("data", .obj [("a", .null)]),
  ("metadata", .obj [("name", .str "s"), ("namespace", .null)])]

/-- The same as it shows, with its type. -/
def secretShown : Json := .obj [("apiVersion", .str "v1"), ("data", .obj [("a", .str "")]),
  ("kind", .str "Secret"), ("metadata", .obj [("name", .str "s")])]

theorem typed_forms_kept_lease :
    leaseSpec.decode? leaseWritten = some leaseShown ∧
    leaseSpec.decode? leaseShown = some leaseShown ∧
    secret.decode? secretWritten = some secretShown ∧
    ∃ o, Object.decode secretShown = .ok o ∧ o.PartsOf secretShown ⟨"v1", "Secret"⟩ ∧
      secret.resource.decode o = .ok secretShown := by
  have hlease : Covered leaseSpec :=
    .member (k := lease) (f := optional "spec" leaseSpec) (by simp [Kind.known]) (by simp [lease])
  have hspec : leaseSpec.decode? leaseWritten = some leaseShown := rfl
  have hsecret : secret.decode? secretWritten = some secretShown := rfl
  exact ⟨hspec, (typed_forms_kept _ _).1 leaseSpec hlease hspec, hsecret,
    ((typed_forms_kept _ _).2 secret (by simp [Kind.known]) hsecret).2⟩

end Schema

end ControlPlane
