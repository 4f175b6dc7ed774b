import ControlPlane.Proofs.DecodedForm
import ControlPlane.Proofs.Holdings
import ControlPlane.Proofs.NamespacedClients
import ControlPlane.Proofs.StatusIsolation
import ControlPlane.Proofs.TypedObjects
import ControlPlane.Proofs.Validity

/-!
# Objects stay as documents decode

An object that was decoded has its data in order, no other metadata than its own, and those in
normal form. A store changes all of this before it keeps an object. It fills in a name and a label,
stamps an identity, and takes the status from elsewhere. The object stays as it is decoded, as what
is written into the metadata is in normal form, and nothing but the status is written elsewhere.

* `Metadata.isNormal_iff_fixed`, `Metadata.normal_iff`: normal forms, member by member.
* `Metadata.Normal.of_rest`: what may be written into metadata in normal form.
* `Object.Tidy`, `Object.tidy_of_decode`: an object as a document decodes.
* `Object.lasting_tidy`: creations and replacements store tidy objects.
* `Client.actions_tidy`: typed clients bring tidy objects.
-/

namespace ControlPlane

/-! ## Metadata in normal form -/

namespace Metadata

variable {m m' : Metadata} {members : Json.Members} {key : String} {value : Json}

theorem get?_of_fields {out : Json.Members}
    (h : Shape.decodeFields? Schema.objectMeta.fields members = some out) {f : Field × Shape}
    (hf : f ∈ Schema.objectMeta.fields) :
    SortedMap.get? out f.1.name = (Shape.given? members f.1.name).bind (Shape.decode? f.2) := by
  obtain ⟨⟨name, presence⟩, shape⟩ := f
  obtain rfl : presence = .optional := presence_of_mem hf
  exact Shape.get?_decodeFields? Shape.ascend_objectMeta h hf

/-- **Members are in normal form exactly if they ascend and each of them is what it decodes as.** -/
theorem isNormal_iff_fixed :
    IsNormal members ↔ SortedMap.Sorted members ∧
      ∀ key value, SortedMap.get? members key = some value → Fixed key value := by
  constructor
  · intro h
    refine ⟨h.sorted, fun key value hvalue => ?_⟩
    have hfields := isNormal_iff.mp h
    obtain ⟨f, hf, rfl⟩ := Shape.mem_of_decodeFields? hfields (SortedMap.mem_of_get? hvalue)
    have hget := (get?_of_fields hfields hf).symm.trans hvalue
    obtain ⟨value', hgiven, hdecode⟩ := Option.bind_eq_some_iff.mp hget
    obtain ⟨heq, hnull⟩ := Option.filter_eq_some_iff.mp hgiven
    obtain rfl := Option.some.inj (heq.symm.trans hvalue)
    exact ⟨f, hf, rfl, by simpa using hnull, hdecode⟩
  · rintro ⟨hsorted, hfixed⟩
    have decode_given {f : Field × Shape} (hf : f ∈ Schema.objectMeta.fields) :
        (Shape.given? members f.1.name).bind (Shape.decode? f.2) =
          SortedMap.get? members f.1.name := by
      cases hvalue : SortedMap.get? members f.1.name with
      | none => rw [Shape.given?, hvalue]; rfl
      | some value =>
        obtain ⟨f', hf', hname, hnull, hdecode⟩ := hfixed _ _ hvalue
        obtain rfl := Shape.ascend_objectMeta.eq_of_name_eq hf' hf hname
        rw [Shape.given?, hvalue, Option.filter_some, hnull]
        exact hdecode
    obtain ⟨out, hout⟩ :
        ∃ out, Shape.decodeFields? Schema.objectMeta.fields members = some out := by
      rw [← Option.isSome_iff_exists, Shape.isSome_decodeFields?_iff]
      intro f hf
      cases hgiven : Shape.given? members f.1.name with
      | none => rw [Shape.Admits, presence_of_mem hf]; decide
      | some value =>
        have hdecode := decode_given hf
        rw [hgiven, Option.bind_some, (Option.filter_eq_some_iff.mp hgiven).1] at hdecode
        rw [Shape.Admits, hdecode]
        rfl
    have heq : out = members := by
      refine SortedMap.ext (Shape.sorted_decodeFields? Shape.ascend_objectMeta hout) hsorted
        fun key => ?_
      by_cases hkey : ∃ f ∈ Schema.objectMeta.fields, f.1.name = key
      · obtain ⟨f, hf, rfl⟩ := hkey
        rw [get?_of_fields hout hf, decode_given hf]
      · have hname : ∀ f ∈ Schema.objectMeta.fields, f.1.name ≠ key :=
          fun f hf heq => hkey ⟨f, hf, heq⟩
        rw [Shape.get?_decodeFields?_eq_none hout hname]
        cases hvalue : SortedMap.get? members key with
        | none => rfl
        | some value =>
          obtain ⟨f, hf, heq, -⟩ := hfixed key value hvalue
          exact absurd heq (hname f hf)
    exact isNormal_iff.mpr (heq ▸ hout)

/-! ### Fields of their own and the rest -/

theorem get?_toMembers_of_notMem (m : Metadata) (hkey : key ∉ fieldNames) :
    SortedMap.get? m.toMembers key = SortedMap.get? m.rest key := by
  rw [get?_toMembers]
  exact (congrArg (Option.or · _) (part_of_notMem m hkey)).trans (Option.none_or ..)

/-- The rest of the metadata ascends and holds no field of its own. -/
structure Apart (m : Metadata) : Prop where
  sorted : SortedMap.Sorted m.rest
  rest_none : ∀ key ∈ fieldNames, SortedMap.get? m.rest key = none

theorem Apart.get?_toMembers (h : m.Apart) (hkey : key ∈ fieldNames) :
    SortedMap.get? m.toMembers key = m.part key := by
  rw [Metadata.get?_toMembers, h.rest_none key hkey, Option.or_none]
  rfl

/-- Metadata whose rest is apart are not changed by putting them together. -/
theorem Apart.ofMembers_toMembers (h : m.Apart) : ofMembers m.toMembers = m := by
  have hrest : (m.toMembers.filter fun e => !fieldNames.contains e.1) = m.rest := by
    refine SortedMap.ext (SortedMap.sorted_filter (sorted_toMembers h.sorted) _) h.sorted
      fun key => ?_
    rw [SortedMap.get?_filter_key m.toMembers (fun key => !fieldNames.contains key) key]
    by_cases hkey : key ∈ fieldNames
    · rw [if_neg (by simpa using hkey), h.rest_none key hkey]
    · rw [if_pos (by simpa using hkey), get?_toMembers_of_notMem m hkey]
  have htext (o : Option String) : (o.map Json.str).bind Json.text? = o := by cases o <;> rfl
  have hint (o : Option Int) : (o.map Json.int).bind intOf? = o := by cases o <;> rfl
  have hlabels (o : Option Labels) : (o.map labelsJson).bind labelsOf? = o := by
    cases o with
    | none => rfl
    | some labels => exact labelsOf?_labelsJson labels
  have hpart (key : String) (hkey : key ∈ fieldNames) := h.get?_toMembers hkey
  simp only [fieldNames, List.forall_mem_cons] at hpart
  obtain ⟨hname, hns, hgenerate, huid, hversion, htime, hgeneration, hlabel, -⟩ := hpart
  unfold ofMembers
  simp only [hname, hns, hgenerate, huid, hversion, htime, hgeneration, hlabel, hrest]
  obtain ⟨name, ns, generateName, uid, resourceVersion, creationTimestamp, generation, labels,
    rest⟩ := m
  rw [Metadata.mk.injEq]
  exact ⟨htext name, htext ns, htext generateName, htext uid, htext resourceVersion,
    htext creationTimestamp, hint generation, hlabels labels, rfl⟩

theorem Normal.apart (h : m.Normal) : m.Apart := by
  obtain ⟨members, hnormal, rfl⟩ := h
  refine ⟨SortedMap.sorted_filter hnormal.sorted _, fun key hkey => ?_⟩
  exact (SortedMap.get?_filter_key members (fun key => !fieldNames.contains key) key).trans
    (if_neg (by simpa using hkey))

/-- **Metadata are as decoding gives them exactly if their rest is apart and each of their members
is what it decodes as.** -/
theorem normal_iff :
    m.Normal ↔ m.Apart ∧ ∀ key value, SortedMap.get? m.toMembers key = some value →
      Fixed key value := by
  constructor
  · intro h
    exact ⟨h.apart, (isNormal_iff_fixed.mp h.isNormal_toMembers).2⟩
  · rintro ⟨hapart, hfixed⟩
    exact ⟨m.toMembers, isNormal_iff_fixed.mpr ⟨sorted_toMembers hapart.sorted, hfixed⟩,
      hapart.ofMembers_toMembers.symm⟩

/-! ### What is written into metadata -/

/-- **Whatever is written into metadata in normal form, they stay so**, if the time of creation and
the generation are such as are read. -/
theorem Normal.of_rest (h : m.Normal) (hrest : m'.rest = m.rest)
    (htime : ∀ s, m'.creationTimestamp = some s → Fixed "creationTimestamp" (.str s))
    (hgeneration : ∀ n, m'.generation = some n → Fixed "generation" (.int n)) : m'.Normal := by
  have hapart : m'.Apart := ⟨hrest ▸ h.apart.sorted, hrest ▸ h.apart.rest_none⟩
  refine normal_iff.mpr ⟨hapart, fun key value hvalue => ?_⟩
  by_cases hkey : key ∈ fieldNames
  · rw [hapart.get?_toMembers hkey] at hvalue
    have htext {key : String} (hkey : key ∈ textKeys) (hne : key ≠ "creationTimestamp")
        {text : Option String} (hvalue : text.map Json.str = some value) : Fixed key value := by
      obtain ⟨s, -, rfl⟩ := Option.map_eq_some_iff.mp hvalue
      exact fixed_text hkey hne s
    simp only [fieldNames, List.mem_cons, List.not_mem_nil, or_false] at hkey
    rcases hkey with rfl | rfl | rfl | rfl | rfl | rfl | rfl | rfl
    · exact htext (by decide) (by decide) (hvalue : m'.name.map Json.str = some value)
    · exact htext (by decide) (by decide) (hvalue : m'.ns.map Json.str = some value)
    · exact htext (by decide) (by decide) (hvalue : m'.generateName.map Json.str = some value)
    · exact htext (by decide) (by decide) (hvalue : m'.uid.map Json.str = some value)
    · exact htext (by decide) (by decide) (hvalue : m'.resourceVersion.map Json.str = some value)
    · obtain ⟨s, hs, rfl⟩ := Option.map_eq_some_iff.mp
        (hvalue : m'.creationTimestamp.map Json.str = some value)
      exact htime s hs
    · obtain ⟨n, hn, rfl⟩ := Option.map_eq_some_iff.mp
        (hvalue : m'.generation.map Json.int = some value)
      exact hgeneration n hn
    · obtain ⟨labels, -, rfl⟩ := Option.map_eq_some_iff.mp
        (hvalue : m'.labels.map labelsJson = some value)
      exact fixed_labels labels
  · rw [get?_toMembers_of_notMem m' hkey, hrest, ← get?_toMembers_of_notMem m hkey] at hvalue
    exact (normal_iff.mp h).2 key value hvalue

namespace Normal

theorem creationTimestamp (h : m.Normal) {s : String} (hs : m.creationTimestamp = some s) :
    Fixed "creationTimestamp" (.str s) := by
  refine (normal_iff.mp h).2 _ _ ((h.apart.get?_toMembers (by decide)).trans ?_)
  exact congrArg (Option.map Json.str) hs

theorem generation (h : m.Normal) {n : Int} (hn : m.generation = some n) :
    Fixed "generation" (.int n) := by
  refine (normal_iff.mp h).2 _ _ ((h.apart.get?_toMembers (by decide)).trans ?_)
  exact congrArg (Option.map Json.int) hn

/-- Names and labels are written freely. -/
theorem of_same (h : m.Normal) (hrest : m'.rest = m.rest)
    (htime : m'.creationTimestamp = m.creationTimestamp)
    (hgeneration : m'.generation = m.generation) : m'.Normal :=
  h.of_rest hrest (fun _ hs => h.creationTimestamp (htime ▸ hs)) fun _ hn =>
    h.generation (hgeneration ▸ hn)

end Normal

end Metadata

/-! ## Tidy objects -/

/-- An object as a document decodes: its data are in order and hide no metadata, and its metadata
are in normal form. -/
structure Object.Tidy (o : Object) : Prop where
  sorted : SortedMap.Sorted o.data
  plain : o.Plain
  metadata : o.metadata.Normal

namespace Object

variable {o o' : Object}

theorem tidy_of_decode {members : Json.Members} (hmembers : SortedMap.Sorted members)
    (h : decode (.obj members) = .ok o) : o.Tidy :=
  ⟨sorted_data_of_decode hmembers h, plain_of_decode h, (normal_of_decode h).metadata⟩

namespace Tidy

theorem with_metadata (h : o.Tidy) (hdata : o'.data = o.data) (hm : o'.metadata.Normal) : o'.Tidy :=
  ⟨hdata ▸ h.sorted, (congrArg (SortedMap.get? · "metadata") hdata).trans h.plain, hm⟩

theorem setStatus (h : o.Tidy) (status : Option Json) : (o.setStatus status).Tidy :=
  ⟨SortedMap.sorted_set h.sorted _ _,
    (SortedMap.get?_set _ _ _ _).trans ((if_neg (by decide)).trans h.plain), h.metadata⟩

theorem named (h : o.Tidy) (suffix : String) : (o.named suffix).Tidy := by
  unfold Object.named
  split
  · split
    · exact h.with_metadata rfl (h.metadata.of_same rfl rfl rfl)
    · exact h
  · exact h

theorem mark (h : o.Tidy) (scope : Scope) : (scope.mark o).Tidy := by
  cases scope with
  | all => exact h
  | partition p => exact h.with_metadata rfl (h.metadata.of_same rfl rfl rfl)

theorem composed (h : o.Tidy) {current : Object} (hcurrent : current.Tidy) (t : Table)
    (x : Option Subresource) : (t.composed x current o).Tidy := by
  cases x with
  | none =>
    rw [Table.composed]
    split
    · exact h.setStatus _
    · exact h
  | some part =>
    cases part
    exact hcurrent.setStatus _

theorem born (h : o.Tidy) {m : Moment} (hm : m.wall.Valid) (v : Version) : (o.born m v).Tidy := by
  refine h.with_metadata rfl (h.metadata.of_rest rfl ?_ ?_)
  · intro s hs
    obtain rfl := Option.some.inj hs
    exact Metadata.fixed_time hm
  · intro n hn
    obtain rfl := Option.some.inj hn
    exact Metadata.fixed_generation rfl

theorem succeeding (h : o.Tidy) {old : Object} (hold : old.Tidy) (v : Version) :
    (o.succeeding old v).Tidy := by
  refine h.with_metadata rfl (h.metadata.of_rest rfl (fun s hs => ?_) fun n hn => ?_)
  · exact hold.metadata.creationTimestamp hs
  · obtain rfl := Option.some.inj hn
    split
    · exact Metadata.fixed_generation (fits_nextGeneration _)
    · cases hgeneration : old.metadata.generation with
      | none => exact Metadata.fixed_generation rfl
      | some n => exact hold.metadata.generation hgeneration

end Tidy

/-- **Creations and replacements store tidy objects**, if the objects that are brought are tidy.
They all have a generation. -/
theorem lasting_tidy :
    Lasting (fun _ o => o.Tidy ∧ o.metadata.generation.isSome = true) Tidy
      fun m => m.wall.Valid where
  created {t scope m o o' key} v ho hm h := by
    obtain ⟨-, -, -, rfl, -⟩ := Table.creation_eq_ok_iff.mp h
    have htyped : (o.typedAs t.definition).Tidy := ho.with_metadata rfl ho.metadata
    exact ⟨((htyped.named m.suffix).mark scope).born hm v, rfl⟩
  replaced {t scope o next expected x key r} v ho hr h := by
    obtain ⟨-, -, -, -, -, -, -, rfl⟩ := Table.revision_eq_ok_iff.mp h
    have htyped : (o.typedAs t.definition).Tidy := ho.with_metadata rfl ho.metadata
    exact ⟨((htyped.composed hr.1 t x).mark scope).succeeding hr.1 v, rfl⟩
  patched {d current o p x wall} hcurrent h := by
    obtain ⟨strategic, document, happly⟩ := Patch.exists_applyDocument h
    obtain ⟨-, -, patched, -, hdecode⟩ := Patch.applyDocument_eq_ok_iff.mp happly
    exact ⟨Patch.sorted_applyTo hcurrent.1.sorted h, plain_of_decode hdecode,
      (normal_of_decode hdecode).metadata⟩

end Object

/-! ## Typed clients -/

namespace Client

variable {c : Client} {m : Moment} {o : Order}

theorem encode_tidy {document : Json} {w : Object} (hdocument : SortedMap.Sorted document.members)
    (h : c.encode document = .ok w) : w.Tidy := by
  obtain ⟨w', hdecode, hw⟩ := encode_eq_ok h
  obtain ⟨members, -, rfl, -⟩ := Object.decode_eq_ok_iff.mp hdecode
  have htidy : w'.Tidy := Object.tidy_of_decode hdocument hdecode
  rcases hw with rfl | ⟨ns, rfl⟩
  · exact htidy
  · exact htidy.with_metadata rfl (htidy.metadata.of_same rfl rfl rfl)

/-- **What a client brings to a store is tidy**, if its documents have their members in order. -/
theorem actions_tidy
    (hdocument : ∀ document, o.document? = some document → SortedMap.Sorted document.members)
    (htimely : ∀ document, o = .create document → m.wall.Valid) :
    ∀ a ∈ c.actions m o, a.Brings Object.Tidy fun m => m.wall.Valid :=
  actions_brings (fun document _ ho h => encode_tidy (hdocument document ho) h) htimely

end Client

end ControlPlane
