import ControlPlane.Proofs.Delivery
import ControlPlane.Proofs.Document
import ControlPlane.Proofs.WellFormed

/-!
# Showing an object and decoding it again

Patches, checks and typed clients all go through the document of an object. What decoding gives is
shown as a document that decodes as the same object, and whoever changes other members of the
document than the version, the kind and the metadata changes exactly these members of the object.
There is one exception. If a document names a version that is no text, its kind is left among the
data; it is shown there, and dropped when the object is decoded again.

* `Object.NamesNoVersion`: the documents of that kind.
* `Object.decode_of_sameHead`: what a document decodes as that has the head of an object.
* `Object.shown_again_iff`: when an object is shown in the same way after it was decoded again.
* `Object.shown_and_decoded`: what decoding gives, and what becomes of it when it is shown, changed
  and decoded again.
* `Object.kind_left_over`: an object with a kind among its data.
-/

namespace ControlPlane

namespace Object

variable {members : Json.Members} {o : Object} {k : String}

/-- The keys of the type and of the metadata. -/
def headKeys : List String := ["apiVersion", "kind", "metadata"]

theorem mem_headKeys_iff : k ∈ headKeys ↔ k = "apiVersion" ∨ k = "kind" ∨ k = "metadata" := by
  simp [headKeys]

theorem notMem_headKeys_iff : k ∉ headKeys ↔ k ≠ "apiVersion" ∧ k ≠ "kind" ∧ k ≠ "metadata" := by
  simp [headKeys]

/-! ## The data of a document -/

/-- The document has a version, but it is no text. -/
def NamesNoVersion (members : Json.Members) : Prop :=
  ∃ value, SortedMap.get? members "apiVersion" = some value ∧ value.text? = none

theorem isHead_kind_eq_false_iff : isHead members "kind" = false ↔ NamesNoVersion members := by
  unfold NamesNoVersion isHead
  cases SortedMap.get? members "apiVersion" with
  | none => simp
  | some value => cases value <;> simp [Json.text?]

theorem isHead_eq_true_iff : isHead members k = true ↔
    k = "apiVersion" ∨ k = "metadata" ∨ (k = "kind" ∧ ¬ NamesNoVersion members) := by
  by_cases hversion : k = "apiVersion"
  · subst hversion
    exact iff_of_true rfl (Or.inl rfl)
  by_cases hmetadata : k = "metadata"
  · subst hmetadata
    exact iff_of_true rfl (Or.inr (Or.inl rfl))
  by_cases hkind : k = "kind"
  · subst hkind
    rw [← isHead_kind_eq_false_iff, Bool.not_eq_false]
    simp
  · rw [isHead_other hversion hkind hmetadata]
    simp [hversion, hmetadata, hkind]

section Decoded

variable (h : decode (.obj members) = .ok o)

include h

/-- An object has a type if its document names both parts by texts. -/
theorem types_eq_some_iff (types : TypeMeta) : o.types = some types ↔
    SortedMap.get? members "apiVersion" = some (.str types.apiVersion) ∧
      SortedMap.get? members "kind" = some (.str types.kind) := by
  obtain ⟨members', metadata, heq, -, rfl⟩ := decode_eq_ok_iff.mp h
  obtain rfl := Json.obj.inj heq
  exact typesOf?_eq_some_iff

theorem get?_kind_eq_none (hversion : ¬ NamesNoVersion members) :
    SortedMap.get? o.data "kind" = none := by
  rw [get?_data_of_decode h,
    if_pos (isHead_eq_true_iff.mpr (Or.inr (Or.inr ⟨rfl, hversion⟩)))]

/-- The kind that is left over is that of the document. -/
theorem get?_kind_eq (hversion : NamesNoVersion members) :
    SortedMap.get? o.data "kind" = SortedMap.get? members "kind" := by
  rw [get?_data_of_decode h, isHead_kind_eq_false_iff.mpr hversion, if_neg Bool.false_ne_true]

/-- Every member besides the head is the document's. -/
theorem get?_data_eq (hk : k ∉ headKeys) :
    SortedMap.get? o.data k = SortedMap.get? members k := by
  obtain ⟨hversion, hkind, hmetadata⟩ := notMem_headKeys_iff.mp hk
  rw [get?_data_of_decode h, isHead_other hversion hkind hmetadata, if_neg Bool.false_ne_true]

end Decoded

/-- Without such a version the data hold exactly the members besides the head. -/
theorem isHead_eq_contains (h : ¬ NamesNoVersion members) :
    isHead members k = headKeys.contains k := by
  rw [Bool.eq_iff_iff, isHead_eq_true_iff, List.contains_iff_mem, mem_headKeys_iff]
  tauto

theorem get?_besides_head (members : Json.Members) (k : String) :
    SortedMap.get? (members.filter fun e => !headKeys.contains e.1) k =
      if k ∈ headKeys then none else SortedMap.get? members k := by
  rw [SortedMap.get?_filter_key members (fun k => !headKeys.contains k) k]
  by_cases hk : k ∈ headKeys
  · rw [if_neg (by simpa using hk), if_pos hk]
  · rw [if_pos (by simpa using hk), if_neg hk]

/-! ## Documents with the head of an object -/

/-- The members have the version, the kind and the metadata of the document of an object. -/
def SameHead (o : Object) (members : Json.Members) : Prop :=
  ∀ k ∈ headKeys, SortedMap.get? members k = SortedMap.get? o.toMembers k

namespace SameHead

variable (ho : o.Normal) (h : o.SameHead members)

include ho h

theorem apiVersion_eq :
    SortedMap.get? members "apiVersion" = o.types.map fun types => .str types.apiVersion :=
  (h _ (by decide)).trans ho.get?_apiVersion

theorem metadata_eq :
    SortedMap.get? members "metadata" = some (.obj o.metadata.toMembers) :=
  (h _ (by decide)).trans ho.get?_metadata

theorem not_namesNoVersion : ¬ NamesNoVersion members := by
  rintro ⟨value, hvalue, htext⟩
  rw [apiVersion_eq ho h] at hvalue
  obtain ⟨types, -, rfl⟩ := Option.map_eq_some_iff.mp hvalue
  cases htext

theorem typesOf?_eq : typesOf? members = o.types := by
  have hversion := apiVersion_eq ho h
  cases htypes : o.types with
  | none =>
    rw [htypes] at hversion
    simp only [typesOf?, hversion, Option.map_none]
  | some types =>
    rw [htypes] at hversion
    exact typesOf?_eq_some_iff.mpr ⟨hversion, (h _ (by decide)).trans (ho.get?_kind htypes)⟩

theorem metadataOf?_eq : metadataOf? members = some o.metadata.toMembers := by
  have hnormal : Schema.objectMeta.decode? (.obj o.metadata.toMembers) =
      some (.obj o.metadata.toMembers) := ho.metadata.isNormal_toMembers
  simp only [metadataOf?, metadata_eq ho h, hnormal]
  rfl

end SameHead

/-- **What a document decodes as that has the head of an object**: the object with the other members
as its data. -/
theorem decode_of_sameHead (ho : o.Normal) (h : o.SameHead members) :
    decode (.obj members) =
      .ok { o with data := members.filter fun e => !headKeys.contains e.1 } := by
  refine decode_eq_ok_iff.mpr ⟨members, _, rfl, h.metadataOf?_eq ho, ?_⟩
  have hdata : (members.filter fun e => !isHead members e.1) =
      members.filter fun e => !headKeys.contains e.1 :=
    List.filter_congr fun e _ => by rw [isHead_eq_contains (h.not_namesNoVersion ho)]
  rw [h.typesOf?_eq ho, ho.metadata.ofMembers_toMembers, hdata]

/-- The data of an object are the members of its document besides the head, and a kind that was left
over. -/
theorem filter_toMembers (ho : o.Normal) (hdata : SortedMap.Sorted o.data) :
    (o.toMembers.filter fun e => !headKeys.contains e.1) = SortedMap.erase o.data "kind" := by
  refine SortedMap.ext (SortedMap.sorted_filter (sorted_toMembers hdata) _)
    (SortedMap.sorted_erase hdata _) fun k => ?_
  rw [get?_besides_head]
  by_cases hk : k ∈ headKeys
  · rw [if_pos hk]
    rcases mem_headKeys_iff.mp hk with rfl | rfl | rfl
    · rw [SortedMap.get?_erase_of_ne _ (by decide), ho.apiVersion_none]
    · rw [SortedMap.get?_erase_self]
    · rw [SortedMap.get?_erase_of_ne _ (by decide), ho.metadata_none]
  · obtain ⟨hversion, hkind, hmetadata⟩ := notMem_headKeys_iff.mp hk
    rw [if_neg hk, SortedMap.get?_erase_of_ne _ hkind,
      o.get?_toMembers_other hversion hkind hmetadata]

/-- **An object that was decoded is shown as a document that decodes as the object**, but for a kind
that was left over. -/
theorem decode_toJson (ho : o.Normal) (hdata : SortedMap.Sorted o.data) :
    decode o.toJson = .ok { o with data := SortedMap.erase o.data "kind" } := by
  rw [toJson, decode_of_sameHead ho fun _ _ => rfl, filter_toMembers ho hdata]

/-- Without a kind among the data the whole document is shown again. -/
theorem toJson_of_sameHead (ho : o.Normal) (hkind : SortedMap.get? o.data "kind" = none)
    (hmembers : SortedMap.Sorted members) (h : o.SameHead members) :
    ({ o with data := members.filter fun e => !headKeys.contains e.1 } : Object).toJson =
      .obj members := by
  refine congrArg Json.obj
    (SortedMap.ext (sorted_toMembers (SortedMap.sorted_filter hmembers _)) hmembers fun k => ?_)
  by_cases hk : k ∈ headKeys
  · rw [get?_toMembers, get?_besides_head, if_pos hk, Option.none_or, h k hk, get?_toMembers]
    -- the data of the object hold no part of the head either
    have hnone : SortedMap.get? o.data k = none := by
      rcases mem_headKeys_iff.mp hk with rfl | rfl | rfl
      · exact ho.apiVersion_none
      · exact hkind
      · exact ho.metadata_none
    rw [hnone, Option.none_or]
    rfl
  · obtain ⟨hversion, hkind, hmetadata⟩ := notMem_headKeys_iff.mp hk
    rw [get?_toMembers_other _ hversion hkind hmetadata, get?_besides_head, if_neg hk]

/-- An object is shown in the same way when it is decoded again exactly if no kind was left over. -/
theorem shown_again_iff (ho : o.Normal) (hdata : SortedMap.Sorted o.data) :
    (∃ again, decode o.toJson = .ok again ∧ again.toJson = o.toJson) ↔
      SortedMap.get? o.data "kind" = none := by
  have hagain := decode_toJson ho hdata
  constructor
  · rintro ⟨again, hdecoded, hshown⟩
    rw [hagain] at hdecoded
    obtain rfl := Except.ok.inj hdecoded
    have hkind := congrArg (SortedMap.get? · "kind") (Json.obj.inj hshown)
    simp only [get?_toMembers, SortedMap.get?_erase_self, Option.none_or] at hkind
    -- with a type there is no kind among the data, and without one the head shows none
    cases htypes : o.types with
    | some types => exact ho.kind_none (by rw [htypes]; rfl)
    | none =>
      have hhead : o.head "kind" = none := by simp [head, htypes]
      have hhead' : head { o with data := SortedMap.erase o.data "kind" } "kind" = none := hhead
      rw [hhead, hhead', Option.or_none] at hkind
      exact hkind.symm
  · intro hkind
    refine ⟨_, hagain, ?_⟩
    rw [← filter_toMembers ho hdata]
    exact toJson_of_sameHead ho hkind (sorted_toMembers hdata) fun _ _ => rfl

/-- Members besides the head that are changed in the document are what changes of the object. -/
theorem exists_decode_changed (ho : o.Normal) {changed : Json.Members}
    (hchanged : SortedMap.Sorted changed) (hhead : o.SameHead changed) :
    ∃ again, decode (.obj changed) = .ok again ∧ again.types = o.types ∧
      again.metadata = o.metadata ∧ SortedMap.get? again.data "kind" = none ∧
      (∀ k, k ∉ headKeys → SortedMap.get? again.data k = SortedMap.get? changed k) ∧
      (SortedMap.get? o.data "kind" = none → again.toJson = .obj changed) := by
  refine ⟨_, decode_of_sameHead ho hhead, rfl, rfl, ?_, fun k hk => ?_, fun hkind =>
    toJson_of_sameHead ho hkind hchanged hhead⟩
  · rw [get?_besides_head, if_pos (by decide)]
  · rw [get?_besides_head, if_neg hk]

/-- **What decoding gives, and what becomes of it when it is shown and decoded again.** An object
has a type exactly if its document names both parts by texts. Its data hold no version and no
metadata, and a kind only if the document names a version that is no text; every other member is the
document's, in the data and when the object is shown. The document that is shown decodes as the same
object without that kind, so as one that is shown in the same way exactly if there was none. If
members besides the head are changed in between, these members change and nothing else. -/
theorem shown_and_decoded (hmembers : SortedMap.Sorted members)
    (h : decode (.obj members) = .ok o) :
    (∀ types, o.types = some types ↔
      SortedMap.get? members "apiVersion" = some (.str types.apiVersion) ∧
      SortedMap.get? members "kind" = some (.str types.kind)) ∧
    (SortedMap.get? o.data "apiVersion" = none ∧ SortedMap.get? o.data "metadata" = none ∧
      (¬ NamesNoVersion members → SortedMap.get? o.data "kind" = none) ∧
      (NamesNoVersion members →
        SortedMap.get? o.data "kind" = SortedMap.get? members "kind")) ∧
    (∀ k, k ∉ headKeys → SortedMap.get? o.data k = SortedMap.get? members k ∧
      SortedMap.get? o.toMembers k = SortedMap.get? members k) ∧
    decode o.toJson = .ok { o with data := SortedMap.erase o.data "kind" } ∧
    ((∃ again, decode o.toJson = .ok again ∧ again.toJson = o.toJson) ↔
      SortedMap.get? o.data "kind" = none) ∧
    ∀ changed, SortedMap.Sorted changed → o.SameHead changed →
      ∃ again, decode (.obj changed) = .ok again ∧ again.types = o.types ∧
        again.metadata = o.metadata ∧ SortedMap.get? again.data "kind" = none ∧
        (∀ k, k ∉ headKeys → SortedMap.get? again.data k = SortedMap.get? changed k) ∧
        (SortedMap.get? o.data "kind" = none → again.toJson = .obj changed) := by
  have ho := normal_of_decode h
  have hsorted := sorted_data_of_decode hmembers h
  have hshown {k : String} (hk : k ∉ headKeys) :
      SortedMap.get? o.toMembers k = SortedMap.get? members k := by
    obtain ⟨hversion, hkind, hmetadata⟩ := notMem_headKeys_iff.mp hk
    rw [o.get?_toMembers_other hversion hkind hmetadata, get?_data_eq h hk]
  exact ⟨types_eq_some_iff h,
    ⟨ho.apiVersion_none, ho.metadata_none, get?_kind_eq_none h, get?_kind_eq h⟩,
    fun k hk => ⟨get?_data_eq h hk, hshown hk⟩,
    decode_toJson ho hsorted, shown_again_iff ho hsorted,
    fun changed hchanged hhead => exists_decode_changed ho hchanged hhead⟩

/-- A config map with a member that no kind knows. -/
def strangeConfig : Json.Members :=
  [("apiVersion", .str "v1"), ("extra", .null), ("kind", .str "ConfigMap"),
    ("metadata", .obj [("name", .str "a"), ("namespace", .str "default")])]

theorem shown_and_decoded_config :
    SortedMap.Sorted strangeConfig ∧ ∃ o, decode (.obj strangeConfig) = .ok o ∧
      o.types = some ⟨"v1", "ConfigMap"⟩ ∧ SortedMap.get? o.data "extra" = some .null ∧
      (∃ again, decode o.toJson = .ok again ∧ again.toJson = o.toJson) ∧
      ∃ again, decode (.obj (SortedMap.insert strangeConfig "extra" (.int 1))) = .ok again ∧
        again.types = o.types ∧ again.metadata = o.metadata ∧
        SortedMap.get? again.data "extra" = some (.int 1) := by
  have hsorted : SortedMap.Sorted strangeConfig := by decide
  obtain ⟨o, ho⟩ : ∃ o, decode (.obj strangeConfig) = .ok o := ⟨_, rfl⟩
  obtain ⟨htypes, ⟨-, -, hkind, -⟩, hother, -, hagain, hchanged⟩ := shown_and_decoded hsorted ho
  have hkind := hkind fun ⟨value, hvalue, htext⟩ => by cases hvalue; cases htext
  obtain ⟨again, hdecode, htypes', hmetadata, -, hdata, -⟩ :=
    hchanged (SortedMap.insert strangeConfig "extra" (.int 1)) (by decide) fun k hk => by
      rcases mem_headKeys_iff.mp hk with rfl | rfl | rfl <;> cases ho <;> rfl
  exact ⟨hsorted, o, ho, (htypes _).mpr ⟨rfl, rfl⟩, (hother "extra" (by decide)).1,
    hagain.mpr hkind, again, hdecode, htypes', hmetadata, hdata "extra" (by decide)⟩

/-- **A kind that is left over.** The version is a number, so the config map has no type, but its
kind is among the data; shown and decoded again it is gone. In a store it counts as content of the
config map, so a patch that changes nothing leads to another generation. -/
theorem kind_left_over :
    ∃ o, decode (.obj [("apiVersion", .int 5), ("kind", .str "ConfigMap"),
        ("metadata", .obj [("name", .str "a"), ("namespace", .str "default")])]) = .ok o ∧
      o.types = none ∧ o.data = [("kind", .str "ConfigMap")] ∧
      o.toJson.member? "kind" = some (.str "ConfigMap") ∧
      (∃ again, decode o.toJson = .ok again ∧ again.data = [] ∧
        again.toJson.member? "kind" = none) ∧
      ∃ stored patched, (Store.configStore.act (Store.configCall (.create o))).1 =
          .answer (.ok (.object stored)) ∧
        ((Store.configStore.run [Store.configCall (.create o)]).act (Store.configCall
          (.patch ⟨some "default", "a"⟩ none (.merge (.obj []))))).1 =
            .answer (.ok (.object patched)) ∧
        stored.metadata.generation = some 1 ∧ patched.metadata.generation = some 2 ∧
        SortedMap.erase stored.toMembers "metadata" =
          SortedMap.erase patched.toMembers "metadata" :=
  ⟨_, rfl, rfl, rfl, rfl, ⟨_, rfl, rfl, rfl⟩, _, _, rfl, rfl, rfl, rfl, rfl⟩

end Object

end ControlPlane
