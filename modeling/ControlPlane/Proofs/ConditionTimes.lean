import ControlPlane.Proofs.Idempotence
import ControlPlane.Proofs.SettledLists

/-!
# The times of conditions after a patch of the status

A patch of the status puts everything else back, and then the times of the conditions in the
document are settled against those of the object. Each list of conditions comes out with the entries
that merging gave it, in their order, and an entry has the time that the conditions before ask for:
the one of the condition of its type if the status is the same, and the time of the patch if it is
another one or if there was no condition of the type and no time was given. Lists are settled one
after the other, so this is about a list that no other one interferes with.

* `Patch.unsettled`: the document before the times in it are settled.
* `Patch.Unnested`: a declared list that no other one interferes with.
* `Patch.condition_times`: each such list in the result.
* `Patch.nested_time_changes`: a list that another one interferes with.
-/

namespace ControlPlane

namespace Patch

variable {p : Patch} {d : Definition} {current r : Object} {subresource : Option Subresource}
  {now : Timestamp} {isolated members metadata : Json.Members} {q rest : Pointer}

/-- The document of the patched object before the times in it are settled. -/
def unsettled (p : Patch) (d : Definition) (current : Object) (subresource : Option Subresource) :
    Except Error Json :=
  let restore (patched : Json) : Json :=
    keepIdentity current.toJson (isolate d subresource current.toJson patched)
  match p with
  | .merge document => (merged d false current.toJson document).map restore
  | .strategic document => (merged d true current.toJson document).map restore
  | .apply => .error (.invalidPatch .applyUnsupported)
  | .edits => .error (.invalidPatch .editsUnsupported)

/-- A patch that succeeds settles that document, and decodes it. -/
theorem exists_unsettled (h : p.applyTo d current subresource now = .ok r) :
    ∃ merged : Json.Members,
      p.unsettled d current subresource = .ok (keepIdentity current.toJson
        (isolate d subresource current.toJson (.obj merged))) ∧
      Object.decode ((Settling.of current.toJson (conditionPointers d)).settle now
        (keepIdentity current.toJson
          (isolate d subresource current.toJson (.obj merged)))) = .ok r := by
  cases p with
  | merge document =>
    obtain ⟨merged, hmerged, -, hdecode⟩ := exists_applied h
    exact ⟨merged, by rw [unsettled, hmerged]; rfl, hdecode⟩
  | strategic document =>
    obtain ⟨merged, hmerged, -, hdecode⟩ := exists_applied h
    exact ⟨merged, by rw [unsettled, hmerged]; rfl, hdecode⟩
  | apply => cases h
  | edits => cases h

/-- A declared list that no other one interferes with: no other path leads into one of its entries,
and its own path does not lead through the time of an entry in another list. -/
structure Unnested (pointers : List Pointer) (q : Pointer) : Prop where
  none_inside : ∀ token rest, q ++ token :: rest ∈ pointers → Pointer.position? token = none
  not_in_time : ∀ p ∈ pointers, ∀ token rest, q = p ++ token :: transitionKey :: rest →
    Pointer.position? token = none

theorem Unnested.alone {pointers : List Pointer} (h : Unnested pointers q) (hq : q ∈ pointers)
    (json : Json) : (Settling.of json pointers).Alone q (conditionsAt json q) where
  mem := List.mem_map.mpr ⟨q, hq, rfl⟩
  eq_of_mem list hlist := by
    obtain ⟨q', -, heq⟩ := List.mem_map.mp hlist
    obtain ⟨rfl, rfl⟩ := Prod.mk.inj heq
    rfl
  none_inside := by
    rw [Settling.pointers_of]
    exact h.none_inside
  not_in_time := by
    rw [Settling.pointers_of]
    exact h.not_in_time

/-! ## Where a list of the result is from -/

theorem listAt?_congr {members' : Json.Members}
    (h : ∀ key, SortedMap.get? members' key = SortedMap.get? members key) (q : Pointer) :
    listAt? (.obj members') q = listAt? (.obj members) q := by
  cases q with
  | nil => rfl
  | cons key rest => rw [listAt?_obj, listAt?_obj, h]

/-- A part of the type is no list. -/
theorem listAt?_text (types : Option TypeMeta) (text : TypeMeta → String) (rest : Pointer) :
    (types.map fun types => Json.str (text types)).bind (listAt? · rest) = none := by
  cases types with
  | none => rfl
  | some types => exact listAt?_scalar (show (Json.str (text types)).IsScalar from trivial) rest

section Result

variable (hremade : Remade d current now isolated members metadata)
  (hdecode : Object.decode (.obj members) = .ok r)

include hremade hdecode

theorem listAt?_kind (rest : Pointer) : listAt? r.toJson ("kind" :: rest) = none := by
  rw [Object.toJson, listAt?_obj, Object.get?_toMembers, hremade.get?_data hdecode,
    if_pos (Or.inr (Or.inl rfl)), Option.none_or]
  exact listAt?_text ..

variable (hcurrent : current.Normal)
  (hmetadata : SortedMap.get? isolated "metadata" = SortedMap.get? current.toMembers "metadata")
  {previous : List Json}

include hcurrent hmetadata

omit hremade hdecode in
/-- The metadata that are settled are those of the object. -/
theorem get?_keptMetadata_status (key : String) :
    SortedMap.get? (keptMetadata current.toMembers isolated) key =
      SortedMap.get? current.metadata.toMembers key := by
  have hisolated : metadataMembers isolated = current.metadata.toMembers := by
    rw [metadataMembers, hmetadata, hcurrent.get?_metadata]
    rfl
  rw [get?_keptMetadata, metadataMembers_toMembers hcurrent, hisolated, ite_self]

omit hdecode in
theorem settledAt_metadata (q : Pointer) :
    ((Settling.of current.toJson (conditionPointers d)).under "metadata").SettledAt now q
      (.obj current.metadata.toMembers) (.obj metadata) := by
  refine ⟨metadata, rfl, fun key rest _ => ?_⟩
  by_cases hkey : key ∈ identityKeys
  · rw [hremade.identity_eq key hkey]
    exact (map_settle_scalar _ now fun v hv =>
      isScalar_of_identityKey hcurrent.metadata.isNormal_toMembers hkey hv).symm
  · rw [hremade.member_eq key hkey, metadataMembers, hmetadata, hcurrent.get?_metadata]
    rfl

theorem rel_metadata
    (halone : (Settling.of current.toJson (conditionPointers d)).Alone ("metadata" :: rest)
      previous) :
    Option.Rel (List.Forall₂ (Timed previous now)) (listAt? (.obj current.metadata.toMembers) rest)
      (listAt? (.obj r.metadata.toMembers) rest) := by
  have hnormal : Schema.objectMeta.decode? (.obj metadata) =
      some (.obj r.metadata.toMembers) := by
    rw [Metadata.objectMeta_decode?, hremade.decodeFields?_eq hdecode, Option.map_some]
  exact Shape.times_decode? Schema.objectMeta Shape.isRegular_objectMeta (by decide +kernel) _
    hcurrent.metadata.isNormal_toMembers
    (settledAt_metadata hremade hcurrent hmetadata rest) hnormal halone.under

/-- **Each list of the result is one of the document, settled.** Only the type may hold a list that
the result does not have. -/
theorem rel_result (hsettled : (Settling.of current.toJson (conditionPointers d)).settle now
      (keepIdentity current.toJson (.obj isolated)) = .obj members)
    (halone : (Settling.of current.toJson (conditionPointers d)).Alone q previous)
    (hkind : q.head? ≠ some "kind") :
    Option.Rel (List.Forall₂ (Timed previous now))
      (listAt? (keepIdentity current.toJson (.obj isolated)) q) (listAt? r.toJson q) := by
  have hrel := (Settling.settledAt_settle _ now q
    (keepIdentity current.toJson (.obj isolated))).rel halone
  rw [hsettled] at hrel
  obtain ⟨kept, hkept, -, hkeptMetadata, hget⟩ := exists_keepIdentity current.toMembers isolated
  rw [show keepIdentity current.toJson (.obj isolated) = .obj kept from hkept] at hrel ⊢
  have hr := Object.normal_of_decode hdecode
  cases q with
  | nil => exact .none
  | cons key rest =>
    rw [listAt?_obj] at hrel ⊢
    rw [listAt?_obj] at hrel
    rw [Object.toJson, listAt?_obj]
    by_cases hkeyMetadata : key = "metadata"
    · subst hkeyMetadata
      rw [hkeptMetadata, hr.get?_metadata, Option.bind_some, Option.bind_some,
        listAt?_congr (get?_keptMetadata_status hcurrent hmetadata)]
      exact rel_metadata hremade hdecode hcurrent hmetadata halone
    by_cases hkeyVersion : key = "apiVersion"
    · subst hkeyVersion
      rw [hget _ hkeyMetadata, if_pos (Or.inl rfl), hcurrent.get?_apiVersion, hr.get?_apiVersion,
        listAt?_text, listAt?_text]
      exact .none
    · have hkeyKind : key ≠ "kind" := fun h => hkind (h ▸ rfl)
      rw [hremade.get?_toMembers hdecode hkeyVersion hkeyKind hkeyMetadata]
      exact hrel

end Result

/-! ## The result -/

/-- **Each list of conditions has the times that the conditions before ask for.** A patch of the
status settles every declared list that no other one interferes with: what the result has there is
what the patched document had, entry by entry, with the times that the conditions of the object ask
for. Only in the place of its kind the result has no list, whatever the document had. -/
theorem condition_times (hcurrent : current.Normal) (p : Patch)
    (h : p.applyTo d current (some .status) now = .ok r) :
    ∃ before, p.unsettled d current (some .status) = .ok before ∧
      ∀ q ∈ conditionPointers d, Unnested (conditionPointers d) q →
        (q.head? ≠ some "kind" →
          Option.Rel (List.Forall₂ (Timed (conditionsAt current.toJson q) now))
            (listAt? before q) (listAt? r.toJson q)) ∧
        (q.head? = some "kind" → listAt? r.toJson q = none) := by
  obtain ⟨merged, hunsettled, hdecode⟩ := exists_unsettled h
  obtain ⟨isolated, members, metadata, hisolated, hsettled, -, hremade⟩ :=
    exists_remade d hcurrent (some .status) now merged
  rw [hisolated] at hunsettled hdecode
  rw [hsettled] at hdecode
  have hmetadata : SortedMap.get? isolated "metadata" =
      SortedMap.get? current.toMembers "metadata" := by
    obtain ⟨isolated', heq, -, hget⟩ := exists_isolate d (some .status) current.toMembers merged
    obtain rfl := Json.obj.inj (hisolated.symm.trans heq)
    rw [hget, if_pos (Or.inl ⟨rfl, by decide⟩)]
  refine ⟨_, hunsettled, fun q hq hunnested => ⟨?_, fun hkind => ?_⟩⟩
  · exact rel_result hremade hdecode hcurrent hmetadata hsettled
      (hunnested.alone hq current.toJson)
  · obtain ⟨rest, rfl⟩ := List.head?_eq_some_iff.mp hkind
    exact listAt?_kind hremade hdecode rest

/-- A patch that makes a node not ready. -/
def unreadyPatch : Json := .obj (oneCondition [("status", .str "False"), ("type", .str "Ready")])

/-- The node that is not ready since a day later. -/
def unreadyNode : Object :=
  nodeOf (oneCondition [("lastTransitionTime", .str "2024-05-02T12:00:00Z"),
    ("status", .str "False"), ("type", .str "Ready")])

/-- A node becomes not ready, at the time of the patch. -/
theorem condition_times_node :
    (merge unreadyPatch).applyTo nodeKind.statusApart readyNode (some .status)
        ⟨2024, 5, 2, 12, 0, 0, 0⟩ = .ok unreadyNode ∧
      ∃ before, (merge unreadyPatch).unsettled nodeKind.statusApart readyNode (some .status) =
          .ok before ∧
        Option.Rel (List.Forall₂ (Timed (conditionsAt readyNode.toJson ["status", "conditions"])
            ⟨2024, 5, 2, 12, 0, 0, 0⟩))
          (listAt? before ["status", "conditions"])
          (listAt? unreadyNode.toJson ["status", "conditions"]) := by
  have hnormal : readyNode.Normal :=
    Object.normal_of_decode (show Object.decode readyNode.toJson = .ok readyNode from rfl)
  have happly : (merge unreadyPatch).applyTo nodeKind.statusApart readyNode (some .status)
      ⟨2024, 5, 2, 12, 0, 0, 0⟩ = .ok unreadyNode := rfl
  have hpointers : conditionPointers nodeKind.statusApart = [["status", "conditions"]] := by
    decide +kernel
  obtain ⟨before, hbefore, hlists⟩ := condition_times hnormal (merge unreadyPatch) happly
  rw [hpointers] at hlists
  refine ⟨happly, before, hbefore, (hlists _ List.mem_cons_self ⟨?_, ?_⟩).1 (by decide)⟩
  · intro token rest h
    cases List.mem_singleton.mp h
  · intro p hp token rest h
    obtain rfl := List.mem_singleton.mp hp
    cases h

/-- **A list in the status of a condition may change its time.** The outer list is settled first,
against a status whose times are not settled yet. So the condition gets the time of the patch,
although it comes out with the status that it had before. -/
theorem nested_time_changes :
    let inner := [("lastTransitionTime", Json.str "h"), ("type", Json.str "B")]
    let patch := Json.obj (oneCondition
      [("status", .arr [.obj [("type", .str "B")]]), ("type", .str "A")])
    let current := nodeOf (nestedCondition "g" inner)
    let r := nodeOf (nestedCondition "2024-05-01T12:00:00Z" inner)
    Object.decode current.toJson = .ok current ∧
      (merge patch).applyTo nestedKind.statusApart current (some .status)
        ⟨2024, 5, 1, 12, 0, 0, 0⟩ = .ok r ∧
      ["status", "conditions"] ∈ conditionPointers nestedKind.statusApart ∧
      ∃ prior c, (conditionsAt current.toJson ["status", "conditions"]).filter
          (carries "type" (.str "A")) = [prior] ∧
        listAt? r.toJson ["status", "conditions"] = some [c] ∧
        c.member? "type" = some (.str "A") ∧
        sameOption (prior.member? "status") (c.member? "status") = true ∧
        transitionTime? prior = some (.str "g") ∧
        c.member? transitionKey ≠ some (.str "g") := by
  refine ⟨rfl, rfl, by decide +kernel, _, _, rfl, rfl, rfl, rfl, rfl, fun h => ?_⟩
  have htime : some "2024-05-01T12:00:00Z" = some "g" := congrArg (Option.bind · Json.text?) h
  exact absurd htime (by decide)

-- A list in the time of a condition is lost when the condition gets back the time that it had.
example :
    let d := (nodeKind.conditionsAt "status.conditions.0.lastTransitionTime").statusApart
    let given (time : Json) := oneCondition [("lastTransitionTime", time), ("type", .str "A")]
    let patch := merge (.obj (given (.arr [.obj [("type", .str "B")]])))
    let current := nodeOf (given (.str "g"))
    let q := ["status", "conditions", "0", "lastTransitionTime"]
    patch.applyTo d current (some .status) ⟨2024, 5, 1, 12, 0, 0, 0⟩ = .ok current ∧
      (patch.unsettled d current (some .status)).toOption.bind (listAt? · q) =
        some [.obj [("type", .str "B")]] ∧
      listAt? current.toJson q = none := ⟨rfl, rfl, rfl⟩

end Patch

end ControlPlane
