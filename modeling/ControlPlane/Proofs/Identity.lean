import ControlPlane.Proofs.Patched
import ControlPlane.Schema.Kinds

/-!
# What a patch cannot change

The type of an object and the six members of its metadata that identify it survive every patch,
whatever the document does to the object or to its metadata. They are put back after merging. What
is put back is neither an object nor a list, so settling the times of conditions leaves it as it is,
and it is in normal form, so decoding does too.

* `Patch.Remade`, `Patch.exists_remade`: the document that the result is decoded from.
* `Patch.applyDocument_identity`: what identifies an object, member by member.
* `Patch.identity_survives`: the result of a patch has the identity of the object.
-/

namespace ControlPlane

namespace Patch

variable {d : Definition} {current r : Object} {strategic : Bool} {document : Json}
  {subresource : Option Subresource} {now : Timestamp}

theorem identityKey_cases {key : String} (hkey : key ∈ identityKeys) :
    key ∈ Metadata.textKeys ∨ key = "generation" := by
  simp only [identityKeys, List.mem_cons, List.not_mem_nil, or_false] at hkey
  rcases hkey with rfl | rfl | rfl | rfl | rfl | rfl <;> simp [Metadata.textKeys]

/-- The members of the metadata that identify an object, each with its shape. -/
theorem exists_shape_of_identityKey {key : String} (hkey : key ∈ identityKeys) :
    ∃ shape, (⟨key, .optional⟩, shape) ∈ Schema.objectMeta.fields := by
  rcases identityKey_cases hkey with htext | rfl
  · rcases Metadata.mem_fields_of_textKey htext with hmem | hmem
    · exact ⟨_, hmem⟩
    · exact ⟨_, hmem⟩
  · exact ⟨_, Metadata.mem_fields_generation⟩

/-- What identifies an object is a text or a number. -/
theorem isScalar_of_identityKey {members : Json.Members} (h : Metadata.IsNormal members)
    {key : String} (hkey : key ∈ identityKeys) {value : Json}
    (hvalue : SortedMap.get? members key = some value) : value.IsScalar := by
  rcases identityKey_cases hkey with htext | rfl
  · obtain ⟨s, rfl⟩ := h.str_of_get? htext hvalue
    exact trivial
  · obtain ⟨n, rfl⟩ := h.int_of_get? hvalue
    exact trivial

/-- Settling leaves what is neither an object nor a list as it is. -/
theorem map_settle_scalar (C : Settling) (now : Timestamp) {value : Option Json}
    (h : ∀ v, value = some v → v.IsScalar) : value.map (C.settle now) = value := by
  cases value with
  | none => rfl
  | some v => exact congrArg some (C.settle_scalar now (h v rfl))

theorem metadataMembers_toMembers (h : current.Normal) :
    metadataMembers current.toMembers = current.metadata.toMembers := by
  rw [metadataMembers, h.get?_metadata]
  rfl

/-- The document that the result of a patch is decoded from, if the object was decoded too: its
members and its metadata, by what they were after the rest of the object was put back. -/
structure Remade (d : Definition) (current : Object) (now : Timestamp)
    (isolated members metadata : Json.Members) : Prop where
  apiVersion_eq : SortedMap.get? members "apiVersion" =
    current.types.map fun types => .str types.apiVersion
  kind_eq : ∀ types, current.types = some types →
    SortedMap.get? members "kind" = some (.str types.kind)
  metadata_eq : SortedMap.get? members "metadata" = some (.obj metadata)
  identity_eq : ∀ key ∈ identityKeys,
    SortedMap.get? metadata key = SortedMap.get? current.metadata.toMembers key
  member_eq : ∀ key, key ∉ identityKeys → SortedMap.get? metadata key =
    (SortedMap.get? (metadataMembers isolated) key).map
      ((((Settling.of current.toJson (conditionPointers d)).under "metadata").under key).settle now)
  data_eq : ∀ key, key ≠ "apiVersion" → key ≠ "kind" → key ≠ "metadata" →
    SortedMap.get? members key = (SortedMap.get? isolated key).map
      (((Settling.of current.toJson (conditionPointers d)).under key).settle now)

theorem exists_remade (d : Definition) (hcurrent : current.Normal)
    (subresource : Option Subresource) (now : Timestamp) (merged : Json.Members) :
    ∃ isolated members metadata : Json.Members,
      isolate d subresource current.toJson (.obj merged) = .obj isolated ∧
      (Settling.of current.toJson (conditionPointers d)).settle now
        (keepIdentity current.toJson (.obj isolated)) = .obj members ∧
      (SortedMap.Sorted current.toMembers → SortedMap.Sorted merged →
        SortedMap.Sorted members) ∧
      Remade d current now isolated members metadata := by
  obtain ⟨isolated, members, metadata, hisolated, hsettled, hsorted, hmetadata, hgetMetadata,
    hget⟩ := exists_settled d current subresource now merged
  refine ⟨isolated, members, metadata, hisolated, hsettled, hsorted, ?_, ?_, hmetadata, ?_, ?_, ?_⟩
  · rw [hget _ (by simp), if_pos (Or.inl rfl), hcurrent.get?_apiVersion]
    refine map_settle_scalar _ now fun v hv => ?_
    obtain ⟨types, -, rfl⟩ := Option.map_eq_some_iff.mp hv
    exact trivial
  · intro types htypes
    rw [hget _ (by simp), if_pos (Or.inr rfl), hcurrent.get?_kind htypes]
    exact congrArg some (Settling.settle_scalar _ _ trivial)
  · intro key hkey
    rw [hgetMetadata, get?_keptMetadata, if_pos hkey, metadataMembers_toMembers hcurrent]
    exact map_settle_scalar _ now fun v hv =>
      isScalar_of_identityKey hcurrent.metadata.isNormal_toMembers hkey hv
  · intro key hkey
    rw [hgetMetadata, get?_keptMetadata, if_neg hkey]
  · intro key hversion hkind hkey
    rw [hget key hkey, if_neg (by simp [hversion, hkind])]

namespace Remade

variable {now : Timestamp} {isolated members metadata : Json.Members}

/-- The type of the object is put back. -/
theorem typesOf?_eq (h : Remade d current now isolated members metadata) :
    Object.typesOf? members = current.types := by
  have hversion := h.apiVersion_eq
  cases htypes : current.types with
  | none =>
    rw [htypes] at hversion
    simp only [Object.typesOf?, hversion, Option.map_none]
  | some types =>
    rw [htypes] at hversion
    exact Object.typesOf?_eq_some_iff.mpr ⟨hversion, h.kind_eq types htypes⟩

/-- The metadata of the result are those of the document, in normal form. -/
theorem decodeFields?_eq (h : Remade d current now isolated members metadata)
    (hdecode : Object.decode (.obj members) = .ok r) :
    Shape.decodeFields? Schema.objectMeta.fields metadata = some r.metadata.toMembers := by
  obtain ⟨members', normal, heq, hnormal, rfl⟩ := Object.decode_eq_ok_iff.mp hdecode
  obtain rfl := Json.obj.inj heq
  rw [Metadata.toMembers_ofMembers (Object.isNormal_of_metadataOf? hnormal)]
  rw [Object.metadataOf?, h.metadata_eq] at hnormal
  obtain ⟨json, hjson, hout⟩ := Option.bind_eq_some_iff.mp hnormal
  obtain ⟨out, hfields, rfl⟩ := Option.map_eq_some_iff.mp hjson
  obtain rfl := Option.some.inj hout
  exact hfields

end Remade

/-- The result of a patch of an object that was decoded has its type and what identifies it. -/
theorem applyDocument_identity (hcurrent : current.Normal)
    (h : applyDocument d current strategic document subresource now = .ok r) :
    r.types = current.types ∧ ∀ key ∈ identityKeys,
      SortedMap.get? r.metadata.toMembers key =
        SortedMap.get? current.metadata.toMembers key := by
  obtain ⟨merged, -, -, hdecode⟩ := exists_applied h
  obtain ⟨isolated, members, metadata, hisolated, hsettled, -, hremade⟩ :=
    exists_remade d hcurrent subresource now merged
  rw [hisolated, hsettled] at hdecode
  refine ⟨?_, fun key hkey => ?_⟩
  · obtain ⟨members', normal, heq, -, rfl⟩ := Object.decode_eq_ok_iff.mp hdecode
    obtain rfl := Json.obj.inj heq
    exact hremade.typesOf?_eq
  · have hearlier : Metadata.IsNormal current.metadata.toMembers :=
      hcurrent.metadata.isNormal_toMembers
    obtain ⟨shape, hshape⟩ := exists_shape_of_identityKey hkey
    rw [Shape.get?_decodeFields? Shape.ascend_objectMeta (hremade.decodeFields?_eq hdecode)
        hshape,
      Shape.get?_decodeFields? Shape.ascend_objectMeta (Metadata.isNormal_iff.mp hearlier)
        hshape, Shape.given?, Shape.given?, hremade.identity_eq key hkey]

/-- **Identity survives every patch.** Whatever the strategy, the document, the subresource and the
time, the result of a patch has the type of the object, or none, and the name, namespace, uid, time
of creation, resource version and generation of the object, or none. -/
theorem identity_survives {json : Json} (hdecode : Object.decode json = .ok current) (p : Patch)
    (h : p.applyTo d current subresource now = .ok r) :
    r.types = current.types ∧ r.metadata.name = current.metadata.name ∧
      r.metadata.ns = current.metadata.ns ∧ r.metadata.uid = current.metadata.uid ∧
      r.metadata.creationTimestamp = current.metadata.creationTimestamp ∧
      r.metadata.resourceVersion = current.metadata.resourceVersion ∧
      r.metadata.generation = current.metadata.generation := by
  have hcurrent := Object.normal_of_decode hdecode
  obtain ⟨strategic, document, happly⟩ := exists_applyDocument h
  obtain ⟨htypes, hidentity⟩ := applyDocument_identity hcurrent happly
  obtain ⟨-, -, patched, -, hresult⟩ := applyDocument_eq_ok_iff.mp happly
  have hr := (Object.normal_of_decode hresult).metadata.ofMembers_toMembers
  have hc := hcurrent.metadata.ofMembers_toMembers
  have htext (key : String) (hkey : key ∈ identityKeys) :
      (SortedMap.get? r.metadata.toMembers key).bind Json.text? =
        (SortedMap.get? current.metadata.toMembers key).bind Json.text? := by
    rw [hidentity key hkey]
  rw [← hr, ← hc]
  refine ⟨htypes, htext "name" (by simp [identityKeys]), htext "namespace" (by simp [identityKeys]),
    htext "uid" (by simp [identityKeys]), htext "creationTimestamp" (by simp [identityKeys]),
    htext "resourceVersion" (by simp [identityKeys]), ?_⟩
  exact congrArg (Option.bind · Metadata.intOf?) (hidentity "generation" (by simp [identityKeys]))

/-- A merge patch that makes the metadata of a node a number and deletes its kind. -/
theorem identity_survives_node :
    ∃ current r : Object,
      Object.decode (.ofMembers [("apiVersion", .str "v1"), ("kind", .str "Node"),
        ("metadata", .ofMembers [("name", .str "n"), ("uid", .str "u"), ("generation", .int 3)])]) =
          .ok current ∧
      applyTo (.merge (.ofMembers [("kind", .null), ("metadata", .int 5)]))
        (Definition.ofKind Schema.node).statusApart current none ⟨2024, 1, 1, 0, 0, 0, 0⟩ = .ok r ∧
      r.types = current.types ∧ r.metadata.name = some "n" ∧ r.metadata.ns = none ∧
      r.metadata.uid = some "u" ∧ r.metadata.generation = some 3 := by
  refine ⟨_, _, rfl, rfl, ?_⟩
  obtain ⟨htypes, hname, hns, huid, -, -, hgeneration⟩ := @identity_survives
    (Definition.ofKind Schema.node).statusApart _ _ none ⟨2024, 1, 1, 0, 0, 0, 0⟩
    (.ofMembers [("apiVersion", .str "v1"), ("kind", .str "Node"),
      ("metadata", .ofMembers [("name", .str "n"), ("uid", .str "u"), ("generation", .int 3)])])
    rfl (.merge (.ofMembers [("kind", .null), ("metadata", .int 5)])) rfl
  exact ⟨htypes, hname, hns, huid, hgeneration⟩

end Patch

end ControlPlane
