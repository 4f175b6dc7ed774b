import ControlPlane.Proofs.Identity
import ControlPlane.Proofs.SettledForm
import ControlPlane.Schema.Kinds

/-!
# Merge patches that are applied again

A merge patch that is applied to its own result gives that result again, whatever has become of the
time. Each member of the document takes the same way both times: it is merged, or put back, and then
settled, and the metadata are decoded. What comes out of that is left by doing it once more, since
the conditions are then settled against themselves.

* `Patch.Settling.Orderly`: the conditions of each list are told apart by their types, and no list
  of conditions is inside the type or the status of a condition in another.
* `Patch.addressed`, `Patch.metadataPatch`: what a merge patch holds for one member.
* `Patch.member_again`: a member of the metadata, when it is patched again.
* `Patch.Merging.decode_again`: the document of the result, when it is patched again.
* `Patch.merge_idempotent`: the patch as a whole.
* `Patch.merge_nested_differs`: it takes more than conditions that are told apart.
-/

namespace ControlPlane

/-! ## Well-formed documents -/

namespace Object

variable {o : Object} {json : Json}

theorem wellFormed_toJson (hdata : Json.WellFormedObject o.data)
    (hmetadata : (Json.obj o.metadata.toMembers).WellFormed) : o.toJson.WellFormed := by
  have hsorted := sorted_toMembers hdata.sorted
  refine Json.wellFormed_obj.mpr ⟨hsorted, fun e he => ?_⟩
  have hget := SortedMap.get?_of_mem hsorted he
  rw [get?_toMembers] at hget
  rcases Option.or_eq_some_iff.mp hget with hvalue | ⟨-, hhead⟩
  · exact hdata.wellFormed hvalue
  · have htext {text : TypeMeta → String} (h : o.types.map (.str ∘ text) = some e.2) :
        e.2.WellFormed := by
      obtain ⟨types, -, heq⟩ := Option.map_eq_some_iff.mp h
      rw [← heq]
      exact trivial
    unfold head at hhead
    split at hhead
    · rw [← Option.some.inj hhead]
      exact hmetadata
    · split at hhead
      · exact htext hhead
      · split at hhead
        · exact htext hhead
        · cases hhead

/-- The document of an object that was read from a well-formed document is well formed. -/
theorem wellFormed_of_decode (hjson : json.WellFormed) (h : decode json = .ok o) :
    o.toJson.WellFormed := by
  obtain ⟨members, metadata, rfl, hmetadata, rfl⟩ := decode_eq_ok_iff.mp h
  refine wellFormed_toJson (Json.WellFormedObject.filter hjson _) ?_
  rw [Metadata.toMembers_ofMembers (isNormal_of_metadataOf? hmetadata)]
  unfold metadataOf? at hmetadata
  split at hmetadata
  · obtain rfl := Option.some.inj hmetadata
    exact Json.WellFormedObject.nil
  · next value hvalue =>
    obtain ⟨normal, hdecode, hmembers⟩ := Option.bind_eq_some_iff.mp hmetadata
    have hwell := Shape.wellFormed_decode? _ Shape.isRegular_objectMeta
      (Json.WellFormedObject.wellFormed hjson hvalue) hdecode
    cases normal with
    | obj out =>
      obtain rfl := Option.some.inj hmembers
      exact hwell
    | _ => cases hmembers

end Object

namespace Patch

open Settling

variable {d : Definition} {current r : Object} {subresource : Option Subresource}

theorem wellFormed_isolate {earlier members isolated : Json.Members}
    (hearlier : (Json.obj earlier).WellFormed) (hmembers : (Json.obj members).WellFormed)
    (h : isolate d subresource (.obj earlier) (.obj members) = .obj isolated) :
    (Json.obj isolated).WellFormed := by
  rw [← h]
  cases subresource with
  | some part =>
    cases part
    exact Json.WellFormedObject.set hearlier _ fun v hv =>
      Json.WellFormedObject.wellFormed hmembers hv
  | none =>
    rw [isolate]
    split
    · exact Json.WellFormedObject.set hmembers _ fun v hv =>
        Json.WellFormedObject.wellFormed hearlier hv
    · exact hmembers

theorem wellFormed_foldl_restore {earlier : Json.Members} (hearlier : Json.WellFormedObject earlier)
    (keys : List String) {members : Json.Members} (h : Json.WellFormedObject members) :
    Json.WellFormedObject (keys.foldl (restore earlier) members) := by
  induction keys generalizing members with
  | nil => exact h
  | cons key keys ih => exact ih (h.set key fun v hv => hearlier.wellFormed hv)

theorem wellFormed_metadataMembers {members : Json.Members} (h : Json.WellFormedObject members) :
    Json.WellFormedObject (metadataMembers members) := by
  rw [metadataMembers]
  cases hvalue : SortedMap.get? members "metadata" with
  | none => exact .nil
  | some value => exact Json.wellFormedObject_members (h.wellFormed hvalue)

theorem wellFormed_keepIdentity {earlier members : Json.Members}
    (hearlier : Json.WellFormedObject earlier) (hmembers : Json.WellFormedObject members) :
    (keepIdentity (.obj earlier) (.obj members)).WellFormed := by
  have hrestored := wellFormed_foldl_restore hearlier ["apiVersion", "kind"] hmembers
  exact hrestored.insert "metadata" (wellFormed_foldl_restore
    (wellFormed_metadataMembers hearlier) identityKeys (wellFormed_metadataMembers hrestored))

/-! ## One member -/

/-- What a merge patch holds for a member, if the request addresses that. -/
def addressed (d : Definition) (subresource : Option Subresource) (patch : Json.Members)
    (key : String) : Option Json :=
  if subresource = some .status ∧ key ≠ "status" ∨
      subresource = none ∧ d.hasStatus = true ∧ key = "status" then none
  else SortedMap.get? patch key

theorem get?_isolated {patch earlier isolated : Json.Members} (hpatch : SortedMap.Sorted patch)
    (h : isolate d subresource (.obj earlier) (.obj (Json.mergePatchMembers patch earlier)) =
      .obj isolated) (key : String) :
    SortedMap.get? isolated key =
      Json.mergeOption (addressed d subresource patch key) (SortedMap.get? earlier key) := by
  obtain ⟨isolated', heq, -, hget⟩ :=
    exists_isolate d subresource earlier (Json.mergePatchMembers patch earlier)
  obtain rfl := Json.obj.inj (heq.symm.trans h)
  rw [hget, addressed]
  split
  · rfl
  · exact Json.get?_mergePatchMembers hpatch earlier key

/-- What a merge patch of the metadata holds for a member of them. A patch that is not an object
leaves no members. -/
def metadataPatch (patch : Option Json) (key : String) : Option Json :=
  match patch with
  | none => none
  | some (.obj members) => SortedMap.get? members key
  | some _ => some .null

theorem get?_metadataMembers {members metadata : Json.Members} {patch : Option Json}
    (hpatch : ∀ p, patch = some p → p.WellFormed)
    (h : SortedMap.get? members "metadata" = Json.mergeOption patch (some (.obj metadata)))
    (key : String) :
    SortedMap.get? (metadataMembers members) key =
      Json.mergeOption (metadataPatch patch key) (SortedMap.get? metadata key) := by
  rw [metadataMembers, h]
  cases patch with
  | none => rfl
  | some p =>
    cases p with
    | obj dm =>
      exact Json.get?_mergePatchMembers (Json.WellFormedObject.sorted (hpatch _ rfl)) metadata key
    | _ => rfl

theorem wellFormed_metadataPatch {patch : Option Json} (hpatch : ∀ p, patch = some p → p.WellFormed)
    {key : String} {p : Json} (h : metadataPatch patch key = some p) : p.WellFormed := by
  unfold metadataPatch at h
  split at h
  · cases h
  · exact Json.WellFormedObject.wellFormed (hpatch _ rfl) h
  · obtain rfl := Option.some.inj h
    exact trivial

theorem isNull_mergePatch {patch : Json} (h : patch.isNull = false) (target : Json) :
    (Json.mergePatch patch target).isNull = false := by
  cases patch with
  | null => cases h
  | _ => rfl

/-- What is patched and settled has the same normal form when that is patched and settled again. -/
theorem decode?_merge_again {shape : Shape} (hregular : shape.isRegular = true)
    (hplain : shape.isPlain = true) (hkeeps : shape.keepsObjects = true) {t₁ t₂ : Timestamp}
    (C : Settling) {p target m : Json} (hp : p.WellFormed) (htarget : target.WellFormed)
    (hwell : (C.settle t₁ (Json.mergePatch p target)).WellFormed)
    (hdecode : shape.decode? (C.settle t₁ (Json.mergePatch p target)) = some m)
    (horderly : Orderly C.pointers m) :
    shape.decode? ((C.own m).settle t₂ (Json.mergePatch p m)) = some m := by
  by_cases hobject : p.isObject = true
  · -- What an object is merged into is an object, and is decoded as it is.
    have heq : m = C.settle t₁ (Json.mergePatch p target) := by
      cases p with
      | obj members =>
        obtain ⟨out, hout, -⟩ := C.exists_settle_obj t₁
          (Json.mergePatchMembers members target.members)
        rw [Json.mergePatch, hout] at hdecode ⊢
        exact Shape.eq_of_decode?_obj hkeeps hdecode
      | _ => cases hobject
    have hm : m.WellFormed := Shape.wellFormed_decode? shape hregular hwell hdecode
    rw [merge_again t₁ t₂ p C target m hp htarget heq.symm hm horderly,
      Shape.decode?_decode? shape hregular _ m hdecode]
  · have hreplaces (x : Json) : Json.mergePatch p x = p := by
      cases p with
      | obj members => exact absurd rfl hobject
      | _ => rfl
    rw [hreplaces] at hdecode hwell ⊢
    exact Shape.decode?_settle_again shape hregular hplain C hp hwell hdecode horderly

/-- **A member of the metadata, when it is patched again.** What was patched and settled decodes as
what it is in the result; so does what is patched from that, and settled against that. -/
theorem member_again {shape : Shape} (hregular : shape.isRegular = true)
    (hplain : shape.isPlain = true) (hkeeps : shape.keepsObjects = true) {t₁ t₂ : Timestamp}
    {C D : Settling} {patch target settled final again : Option Json}
    (hpatch : ∀ p, patch = some p → p.WellFormed) (htarget : ∀ v, target = some v → v.WellFormed)
    (hsettled : settled = (Json.mergeOption patch target).map (C.settle t₁))
    (hwell : ∀ v, settled = some v → v.WellFormed)
    (hgiven : ∀ v, settled = some v → v.isNull = false →
      ∃ m, shape.decode? v = some m ∧ final = some m)
    (hmissing : settled.filter (!·.isNull) = none → final = none)
    (hfinal : ∀ m, final = some m → m.WellFormed ∧ Orderly C.pointers m)
    (hD : ∀ m, final = some m → D = C.own m)
    (hagain : again = (Json.mergeOption patch final).map (D.settle t₂)) :
    (again.filter (!·.isNull)).map shape.decode? =
      (final.filter (!·.isNull)).map shape.decode? := by
  cases hm : final with
  | none =>
    suffices hnone : again = none by rw [hnone]
    rw [hagain, hm]
    cases patch with
    | none => rfl
    | some p =>
      rw [Json.mergeOption] at hsettled ⊢
      split
      · rfl
      · next hnull =>
        rw [if_neg hnull] at hsettled
        obtain ⟨m, -, hsome⟩ := hgiven _ hsettled
          ((isNull_settle ..).trans (isNull_mergePatch (by simpa using hnull) _))
        cases hm.symm.trans hsome
  | some m =>
    obtain ⟨hmwell, horderly⟩ := hfinal m hm
    obtain ⟨v, hv, hvnull⟩ : ∃ v, settled = some v ∧ v.isNull = false := by
      cases hfilter : settled.filter (!·.isNull) with
      | none => cases hm.symm.trans (hmissing hfilter)
      | some v =>
        obtain ⟨hv, hnull⟩ := Option.filter_eq_some_iff.mp hfilter
        exact ⟨v, hv, by simpa using hnull⟩
    obtain ⟨m', hdecode, hm'⟩ := hgiven v hv hvnull
    obtain rfl := Option.some.inj (hm.symm.trans hm')
    suffices hsame : ∃ v', again = some v' ∧ v'.isNull = false ∧ shape.decode? v' = some m by
      obtain ⟨v', rfl, hnull, hdecode'⟩ := hsame
      have hmnull := Shape.isNull_decode? hdecode hvnull
      simp only [Option.filter_some, hnull, hmnull, Bool.not_false, if_true, Option.map_some,
        hdecode', Shape.decode?_decode? shape hregular v m hdecode]
    rw [hagain, hm]
    cases patch with
    | none =>
      refine ⟨m, ?_, Shape.isNull_decode? hdecode hvnull,
        Shape.decode?_decode? shape hregular v m hdecode⟩
      rw [Json.mergeOption, Option.map_some, hD m hm, settle_own hmwell horderly.distinguished]
    | some p =>
      rw [Json.mergeOption] at hsettled ⊢
      split at hsettled
      · cases hv.symm.trans hsettled
      · next hnull =>
        have hpnull : p.isNull = false := by simpa using hnull
        obtain rfl := Option.some.inj (hv.symm.trans hsettled)
        rw [if_neg hnull, Option.map_some, Option.getD_some, hD m hm]
        exact ⟨_, rfl, (isNull_settle ..).trans (isNull_mergePatch hpnull m),
          decode?_merge_again hregular hplain hkeeps C (hpatch p rfl) (Json.wellFormed_getD htarget)
            (hwell _ hv) hdecode horderly⟩

/-! ## The document -/

theorem plain_objectMeta : ∀ f ∈ Schema.objectMeta.fields, f.1.presence = .optional ∧
    f.2.isRegular = true ∧ f.2.isPlain = true ∧ f.2.keepsObjects = true := by
  decide +kernel

namespace Remade

variable {now : Timestamp} {isolated members metadata : Json.Members}

theorem isHead_iff (h : Remade d current now isolated members metadata) {key : String} :
    Object.isHead members key = true ↔
      key = "apiVersion" ∨ key = "kind" ∨ key = "metadata" := by
  constructor
  · intro hhead
    refine Classical.byContradiction fun hkey => ?_
    simp only [not_or] at hkey
    rw [Object.isHead_other hkey.1 hkey.2.1 hkey.2.2] at hhead
    cases hhead
  · rintro (rfl | rfl | rfl)
    · rfl
    · have hversion := h.apiVersion_eq
      unfold Object.isHead
      cases htypes : current.types with
      | none =>
        rw [htypes] at hversion
        simp only [hversion, Option.map_none]
      | some types =>
        rw [htypes] at hversion
        simp only [hversion, Option.map_some]
    · rfl

/-- The data of the result are the members of the document besides the type and the metadata. -/
theorem get?_data (h : Remade d current now isolated members metadata)
    (hdecode : Object.decode (.obj members) = .ok r) (key : String) :
    SortedMap.get? r.data key =
      if key = "apiVersion" ∨ key = "kind" ∨ key = "metadata" then none
      else SortedMap.get? members key := by
  rw [Object.get?_data_of_decode hdecode]
  simp only [h.isHead_iff]

theorem get?_toMembers (h : Remade d current now isolated members metadata)
    (hdecode : Object.decode (.obj members) = .ok r) {key : String} (hversion : key ≠ "apiVersion")
    (hkind : key ≠ "kind") (hmetadata : key ≠ "metadata") :
    SortedMap.get? r.toMembers key = SortedMap.get? members key := by
  rw [Object.get?_toMembers_other r hversion hkind hmetadata, h.get?_data hdecode,
    if_neg (by simp [hversion, hkind, hmetadata])]

end Remade

/-- A document that may be applied to an object may be applied to any other one of its version. -/
theorem requirePrecondition_congr {document : Json}
    (hversion : r.metadata.resourceVersion = current.metadata.resourceVersion)
    (h : requirePrecondition d current document = .ok ()) :
    requirePrecondition d r document = .ok () := by
  obtain ⟨expected, hexpected, h⟩ := bind_eq_ok_iff.mp h
  rw [requirePrecondition, hexpected]
  cases expected with
  | none => rfl
  | some expected =>
    obtain ⟨version, hversion', h⟩ := bind_eq_ok_iff.mp h
    simp only [bind, Except.bind, hversion, hversion']
    dsimp only at h
    split at h
    · next heq => exact if_pos heq
    · obtain ⟨key, -, h⟩ := bind_eq_ok_iff.mp h
      cases h

theorem resourceVersion_eq (hcurrent : current.Normal) {document : Json} {now : Timestamp}
    (h : (merge document).applyTo d current subresource now = .ok r) :
    r.metadata.resourceVersion = current.metadata.resourceVersion := by
  obtain ⟨-, -, patched, -, hresult⟩ := applyDocument_eq_ok_iff.mp h
  rw [← (Object.normal_of_decode hresult).metadata.ofMembers_toMembers,
    ← hcurrent.metadata.ofMembers_toMembers]
  exact congrArg (Option.bind · Json.text?)
    ((applyDocument_identity hcurrent h).2 "resourceVersion" (by simp [identityKeys]))

theorem wellFormed_addressed {patch : Json.Members} (hpatch : (Json.obj patch).WellFormed)
    {key : String} {p : Json} (h : addressed d subresource patch key = some p) : p.WellFormed := by
  unfold addressed at h
  split at h
  · cases h
  · exact Json.WellFormedObject.wellFormed hpatch h

/-- One merge patch of an object: what is merged, what is settled of it, and the metadata in it. -/
structure Merging (d : Definition) (subresource : Option Subresource) (patch : Json.Members)
    (current : Object) (now : Timestamp) (isolated members metadata : Json.Members) : Prop
    extends Remade d current now isolated members metadata where
  normal : current.Normal
  wellFormed_patch : (Json.obj patch).WellFormed
  wellFormed_current : (Json.obj current.toMembers).WellFormed
  wellFormed_members : (Json.obj members).WellFormed
  /-- What the request addresses of the patch is merged into the object. -/
  isolated_eq : ∀ key, SortedMap.get? isolated key =
    Json.mergeOption (addressed d subresource patch key) (SortedMap.get? current.toMembers key)

/-- A merge patch of an object that was decoded, taken apart. -/
theorem exists_merging (hcurrent : current.Normal) (hwell : current.toJson.WellFormed)
    {patch : Json.Members} (hpatch : (Json.obj patch).WellFormed) (d : Definition)
    (subresource : Option Subresource) (now : Timestamp) :
    ∃ isolated members metadata : Json.Members,
      (Settling.of current.toJson (conditionPointers d)).settle now
        (keepIdentity current.toJson (isolate d subresource current.toJson
          (Json.mergePatch (.obj patch) current.toJson))) = .obj members ∧
      Merging d subresource patch current now isolated members metadata := by
  have hmerged := Json.wellFormed_mergePatch (.obj patch) current.toJson hpatch hwell
  obtain ⟨isolated, members, metadata, hisolated, hsettled, -, hremade⟩ :=
    exists_remade d hcurrent subresource now (Json.mergePatchMembers patch current.toMembers)
  have hwellIsolated := wellFormed_isolate hwell hmerged hisolated
  have hwellMembers := wellFormed_settle (wellFormed_of hwell (conditionPointers d)) now
    (wellFormed_keepIdentity hwell hwellIsolated)
  refine ⟨isolated, members, metadata, ?_, hremade, hcurrent, hpatch, hwell,
    hsettled ▸ hwellMembers, get?_isolated (Json.WellFormedObject.sorted hpatch) hisolated⟩
  rw [← hsettled, ← hisolated]
  rfl

namespace Merging

variable {patch : Json.Members} {t₁ t₂ : Timestamp}
  {isolated members metadata isolated' members' metadata' : Json.Members}

/-- One member of the metadata, by what the patch holds for it. -/
theorem get?_metadata (h : Merging d subresource patch current t₁ isolated members metadata)
    {key : String} (hkey : key ∉ identityKeys) :
    SortedMap.get? metadata key =
      (Json.mergeOption (metadataPatch (addressed d subresource patch "metadata") key)
        (SortedMap.get? current.metadata.toMembers key)).map
        ((((Settling.of current.toJson (conditionPointers d)).under "metadata").under
          key).settle t₁) := by
  have hmetadata := h.isolated_eq "metadata"
  rw [h.normal.get?_metadata] at hmetadata
  rw [h.member_eq key hkey,
    get?_metadataMembers (fun p hp => wellFormed_addressed h.wellFormed_patch hp) hmetadata]

section Again

-- The patch gives the object `r`, whose conditions are in order, and is applied to it again.
variable (h : Merging d subresource patch current t₁ isolated members metadata)
  (hdecode : Object.decode (.obj members) = .ok r)
  (horderly : Orderly (conditionPointers d) r.toJson)
  (h' : Merging d subresource patch r t₂ isolated' members' metadata')

include h hdecode horderly h'

/-- **The metadata have the same normal form when they are patched again.** -/
theorem metadata_again :
    Shape.decodeFields? Schema.objectMeta.fields metadata' = some r.metadata.toMembers := by
  have hresult := h.decodeFields?_eq hdecode
  have hwellResult : (Json.obj r.metadata.toMembers).WellFormed :=
    Json.WellFormedObject.wellFormed h'.wellFormed_current h'.normal.get?_metadata
  refine (Shape.decodeFields?_congr fun f hf => ?_).trans
    (Metadata.isNormal_iff.mp h'.normal.metadata.isNormal_toMembers)
  obtain ⟨⟨name, presence⟩, shape⟩ := f
  obtain ⟨hpresence, hregular, hplain, hkeeps⟩ := plain_objectMeta _ hf
  obtain rfl : presence = .optional := hpresence
  by_cases hkey : name ∈ identityKeys
  · rw [Shape.given?, Shape.given?, h'.identity_eq name hkey]
  · refine member_again hregular hplain hkeeps
      (fun p hp => wellFormed_metadataPatch
        (fun p hp => wellFormed_addressed h.wellFormed_patch hp) hp) ?_
      (h.get?_metadata hkey) ?_ ?_ ?_ ?_ ?_ (h'.get?_metadata hkey)
    · intro v hv
      have hearlier : (Json.obj current.metadata.toMembers).WellFormed :=
        Json.WellFormedObject.wellFormed h.wellFormed_current h.normal.get?_metadata
      exact Json.WellFormedObject.wellFormed hearlier hv
    · intro v hv
      have hsettled : (Json.obj metadata).WellFormed :=
        Json.WellFormedObject.wellFormed h.wellFormed_members h.metadata_eq
      exact Json.WellFormedObject.wellFormed hsettled hv
    · intro v hv hnull
      exact Shape.decode?_given? Shape.ascend_objectMeta hresult hf
        (Shape.given?_eq_some_iff.mpr ⟨hv, hnull⟩)
    · intro hmissing
      rw [Shape.get?_decodeFields? Shape.ascend_objectMeta hresult hf]
      exact congrArg (Option.bind · shape.decode?) hmissing
    · intro m hm
      refine ⟨Json.WellFormedObject.wellFormed hwellResult hm, ?_⟩
      have hall : Orderly (Settling.of current.toJson (conditionPointers d)).pointers
          (.obj r.toMembers) := (pointers_of ..).symm ▸ horderly
      exact (hall.under h'.normal.get?_metadata).under hm
    · intro m hm
      rw [← own_of current.toJson r.toJson, Object.toJson, Object.toJson,
        own_under h'.normal.get?_metadata, own_under hm]

/-- **The other members are the same when they are patched again.** -/
theorem data_again {key : String} (hversion : key ≠ "apiVersion") (hkind : key ≠ "kind")
    (hmetadata : key ≠ "metadata") : SortedMap.get? members' key = SortedMap.get? members key := by
  have hresult := h.get?_toMembers hdecode hversion hkind hmetadata
  have hall : Orderly (Settling.of current.toJson (conditionPointers d)).pointers
      (.obj r.toMembers) := (pointers_of ..).symm ▸ horderly
  have htarget (v : Json) (hv : SortedMap.get? current.toMembers key = some v) : v.WellFormed :=
    Json.WellFormedObject.wellFormed h.wellFormed_current hv
  rw [h'.data_eq key hversion hkind hmetadata, h'.isolated_eq key, hresult]
  refine mergeOption_again
    (fun p hp => ⟨wellFormed_addressed h.wellFormed_patch hp, merge_again t₁ t₂ p⟩) htarget
    ?_ ?_ ?_ (C := (Settling.of current.toJson (conditionPointers d)).under key)
  · rw [h.data_eq key hversion hkind hmetadata, h.isolated_eq key]
  · intro v hv
    exact ⟨Json.WellFormedObject.wellFormed h.wellFormed_members hv,
      hall.under (hresult.trans hv)⟩
  · intro v hv
    rw [← own_of current.toJson r.toJson, Object.toJson, Object.toJson,
      own_under (hresult.trans hv)]

/-- **What is decoded when the patch is applied again is the object.** -/
theorem decode_again : Object.decode (.obj members') = .ok r := by
  refine Object.decode_eq_ok_iff.mpr ⟨members', r.metadata.toMembers, rfl, ?_, ?_⟩
  · rw [Object.metadataOf?, h'.metadata_eq]
    dsimp only
    rw [Metadata.objectMeta_decode?, h.metadata_again hdecode horderly h']
    rfl
  · have hdata : (members'.filter fun e => !Object.isHead members' e.1) = r.data := by
      refine SortedMap.ext
        (SortedMap.sorted_filter (Json.WellFormedObject.sorted h'.wellFormed_members) _)
        (Object.sorted_data_of_decode (Json.WellFormedObject.sorted h.wellFormed_members) hdecode)
        fun key => ?_
      rw [h.get?_data hdecode, Object.get?_data]
      simp only [h'.isHead_iff]
      split
      · rfl
      · next hkey =>
        simp only [not_or] at hkey
        exact h.data_again hdecode horderly h' hkey.1 hkey.2.1 hkey.2.2
    rw [h'.typesOf?_eq, h'.normal.metadata.ofMembers_toMembers, hdata]

end Again

end Merging

/-- **A merge patch is idempotent.** If it succeeds and the conditions of the result are told apart
by their types, none of them being in the type or the status of another, then it succeeds on the
result too, whatever the time, and gives it again. -/
theorem merge_idempotent {json document : Json} (hjson : json.WellFormed)
    (hdecode : Object.decode json = .ok current) (hdocument : document.WellFormed)
    {t₁ : Timestamp} (h : (merge document).applyTo d current subresource t₁ = .ok r)
    (horderly : Orderly (conditionPointers d) r.toJson) (t₂ : Timestamp) :
    (merge document).applyTo d r subresource t₂ = .ok r := by
  have hcurrent := Object.normal_of_decode hdecode
  have hwell := Object.wellFormed_of_decode hjson hdecode
  obtain ⟨hobject, hprecondition, patched, hpatched, hresult⟩ := applyDocument_eq_ok_iff.mp h
  obtain rfl := Except.ok.inj hpatched
  cases document with
  | obj patch =>
    obtain ⟨isolated, members, metadata, hsettled, hmerging⟩ :=
      exists_merging hcurrent hwell hdocument d subresource t₁
    rw [hsettled] at hresult
    obtain ⟨isolated', members', metadata', hsettled', hmerging'⟩ :=
      exists_merging (Object.normal_of_decode hresult)
        (Object.wellFormed_of_decode hmerging.wellFormed_members hresult) hdocument d subresource t₂
    refine applyDocument_eq_ok_iff.mpr
      ⟨rfl, requirePrecondition_congr (resourceVersion_eq hcurrent h) hprecondition, _, rfl, ?_⟩
    rw [hsettled']
    exact hmerging.decode_again hresult horderly hmerging'
  | _ => cases hobject

/-- The kind of nodes, with conditions in their status. -/
def nodeKind : Definition := (Definition.ofKind Schema.node).conditionsAt "status.conditions"

/-- A node with some data. -/
def nodeOf (data : Json.Members) : Object :=
  ⟨some ⟨"v1", "Node"⟩, { Metadata.empty with name := some "n" }, data⟩

/-- Data whose status has one condition. -/
def oneCondition (condition : Json.Members) : Json.Members :=
  [("status", .obj [("conditions", .arr [.obj condition])])]

/-- A patch that makes a node ready. -/
def readyPatch : Json := .obj (oneCondition [("status", .str "True"), ("type", .str "Ready")])

/-- The node that is ready since noon. -/
def readyNode : Object :=
  nodeOf (oneCondition [("lastTransitionTime", .str "2024-05-01T12:00:00Z"),
    ("status", .str "True"), ("type", .str "Ready")])

/-- A node becomes ready, and the same patch a second later leaves it so. -/
theorem merge_idempotent_node :
    (merge readyPatch).applyTo nodeKind (nodeOf []) none ⟨2024, 5, 1, 12, 0, 0, 0⟩ =
        .ok readyNode ∧
      (merge readyPatch).applyTo nodeKind readyNode none ⟨2024, 5, 1, 12, 0, 1, 0⟩ =
        .ok readyNode := by
  have hnode : (nodeOf []).toJson.WellFormed := by decide +kernel
  have hpatch : readyPatch.WellFormed := by decide +kernel
  have happly : (merge readyPatch).applyTo nodeKind (nodeOf []) none
      ⟨2024, 5, 1, 12, 0, 0, 0⟩ = .ok readyNode := rfl
  have hpointers : conditionPointers nodeKind = [["status", "conditions"]] := by decide +kernel
  have horderly : Orderly (conditionPointers nodeKind) readyNode.toJson := by
    rw [hpointers]
    refine Orderly.of_unnested (by simp) fun p hp conditions h => ?_
    obtain rfl := List.mem_singleton.mp hp
    obtain rfl := Json.arr.inj (Option.some.inj h)
    exact distinguished_singleton rfl
  exact ⟨happly, merge_idempotent hnode rfl hpatch happly horderly _⟩

/-- The kind of nodes, with conditions in the status of the first condition as well. -/
def nestedKind : Definition := nodeKind.conditionsAt "status.conditions.0.status"

/-- Data with a condition of some time whose status is a condition again. -/
def nestedCondition (time : String) (inner : Json.Members) : Json.Members :=
  oneCondition
    [("lastTransitionTime", .str time), ("status", .arr [.obj inner]), ("type", .str "A")]

/-- A patch that leaves out the time of the inner condition only. -/
def nestedPatch : Json := .obj (nestedCondition "g" [("type", .str "B")])

/-- The node of that patch, with the time of the outer condition. -/
def nestedNode (time : String) : Object :=
  nodeOf (nestedCondition time
    [("lastTransitionTime", .str "2024-05-01T12:00:00Z"), ("type", .str "B")])

/-- That the conditions are told apart is not enough. The patch leaves out the time of a condition
inside the status of another one. So the outer condition has another status when it is patched
again, until the inner one is settled, and its own time is lost. -/
theorem merge_nested_differs :
    (nodeOf []).toJson.WellFormed ∧ Object.decode (nodeOf []).toJson = .ok (nodeOf []) ∧
      nestedPatch.WellFormed ∧
      (merge nestedPatch).applyTo nestedKind (nodeOf []) none ⟨2024, 5, 1, 12, 0, 0, 0⟩ =
        .ok (nestedNode "g") ∧
      (∀ p ∈ conditionPointers nestedKind, ∀ conditions,
        (nestedNode "g").toJson.at? p = some (.arr conditions) → Distinguished conditions) ∧
      (merge nestedPatch).applyTo nestedKind (nestedNode "g") none ⟨2024, 5, 1, 12, 0, 0, 0⟩ =
        .ok (nestedNode "2024-05-01T12:00:00Z") ∧
      nestedNode "2024-05-01T12:00:00Z" ≠ nestedNode "g" := by
  have hpointers : conditionPointers nestedKind =
      [["status", "conditions"], ["status", "conditions", "0", "status"]] := by
    decide +kernel
  refine ⟨by decide +kernel, rfl, by decide +kernel, rfl, fun p hp conditions h => ?_, rfl,
    fun h => ?_⟩
  · rw [hpointers, List.mem_cons, List.mem_singleton] at hp
    rcases hp with rfl | rfl
    · obtain rfl := Json.arr.inj (Option.some.inj h)
      exact distinguished_singleton rfl
    · obtain rfl := Json.arr.inj (Option.some.inj h)
      exact distinguished_singleton rfl
  · have htime : some "2024-05-01T12:00:00Z" = some "g" :=
      congrArg (fun o => (o.toJson.at? ["status", "conditions", "0", transitionKey]).bind
        Json.text?) h
    exact absurd htime (by decide)

end Patch

end ControlPlane
