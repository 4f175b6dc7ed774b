import ControlPlane.Proofs.Decision
import ControlPlane.Proofs.KnownKinds
import ControlPlane.Proofs.Patched

/-!
# Valid objects stay valid

A store checks what it is given, but what it keeps is put together: a name and a label are filled
in, the identity is stamped on, the status comes from another object. A document is decoded member
by member, so it is enough that every member of the new object is one that was decoded before or is
written by the store. The generation is the one such member with a bound, which it never leaves.

* `Shape.isSome_decodeFields?_iff`: a record is decoded if every member of it is.
* `Metadata.WellFormed`: the metadata decode; the `WellFormed` lemmas are what keeps that.
* `Metadata.Fixed`: what a member of metadata decodes as. The `fixed` lemmas are what is written.
* `Definition.validate_metadata`, `Definition.validate_setStatus`: what keeps an object valid.
* `Object.Sound`: an object as a store keeps it. `Object.Sound.born`, `Object.Sound.succeeding`,
  `Object.Sound.stamped`: everything a store writes is.
-/

namespace ControlPlane

/-! ## Records, member by member -/

namespace Shape

/-- What a record takes for a member: a value of its shape, or nothing if the member is not
mandatory. -/
def Admits (f : Field × Shape) : Option Json → Prop
  | some value => (decode? f.2 value).isSome = true
  | none => f.1.presence ≠ .mandatory

/-- **A record is decoded exactly if it takes what is given for each of its members.** -/
theorem isSome_decodeFields?_iff {fields : List (Field × Shape)} {members : Json.Members} :
    (decodeFields? fields members).isSome = true ↔
      ∀ f ∈ fields, Admits f (given? members f.1.name) := by
  induction fields with
  | nil => simp [decodeFields?]
  | cons f fields ih =>
    obtain ⟨field, shape⟩ := f
    rw [List.forall_mem_cons, ← ih, decodeFields?, given?]
    cases (SortedMap.get? members field.name).filter (!·.isNull) with
    | some value =>
      dsimp only [Admits]
      cases decode? shape value with
      | none => simp
      | some normal => simp
    | none =>
      dsimp only [Admits]
      cases field.presence with
      | optional => simp
      | defaulted => simp
      | mandatory => simp

end Shape

/-! ## Metadata -/

namespace Metadata

variable {key : String} {value : Json}

/-- The metadata have the shape of metadata. -/
def WellFormed (m : Metadata) : Prop :=
  (Schema.objectMeta.decode? (.obj m.toMembers)).isSome = true

/-- The value that a field of its own contributes to the members. -/
def part (m : Metadata) (key : String) : Option Json := (m.parts.lookup key).join

/-- The value has the shape of the member of metadata of a name. -/
def Suits (key : String) (value : Json) : Prop :=
  ∀ f ∈ Schema.objectMeta.fields, f.1.name = key → (Shape.decode? f.2 value).isSome = true

/-- The value is one that a member of metadata of that name decodes as. -/
def Fixed (key : String) (value : Json) : Prop :=
  ∃ f ∈ Schema.objectMeta.fields, f.1.name = key ∧ value.isNull = false ∧
    Shape.decode? f.2 value = some value

theorem Fixed.suits (h : Fixed key value) : Suits key value := by
  obtain ⟨f, hf, rfl, -, hdecode⟩ := h
  intro f' hf' hname
  obtain rfl := Shape.ascend_objectMeta.eq_of_name_eq hf' hf hname
  rw [hdecode]
  rfl

theorem part_of_notMem (m : Metadata) (hkey : key ∉ fieldNames) : m.part key = none := by
  have hlookup : m.parts.lookup key = none := by
    rw [List.lookup_eq_none_iff]
    intro e he
    have hne : key ≠ e.1 := by
      rintro rfl
      exact hkey (List.mem_map_of_mem he : e.1 ∈ m.parts.map (·.1))
    simpa using hne
  rw [part, hlookup]
  rfl

theorem presence_of_mem {f : Field × Shape} (h : f ∈ Schema.objectMeta.fields) :
    f.1.presence = .optional := by
  have hoptional : ∀ f ∈ Schema.objectMeta.fields, f.1.presence = .optional := by decide
  exact hoptional f h

theorem wellFormed_iff {m : Metadata} :
    m.WellFormed ↔
      ∀ key value, Shape.given? m.toMembers key = some value → Suits key value := by
  rw [WellFormed, objectMeta_decode?, Option.isSome_map, Shape.isSome_decodeFields?_iff]
  constructor
  · rintro h key value hvalue f hf rfl
    have := h f hf
    rwa [hvalue] at this
  · intro h f hf
    cases hvalue : Shape.given? m.toMembers f.1.name with
    | some value => exact h f.1.name value hvalue f hf rfl
    | none =>
      rw [Shape.Admits, presence_of_mem hf]
      decide

/-- **Metadata stay well formed** if each field of their own stays or gets a value that suits it. -/
theorem WellFormed.parts {m m' : Metadata} (h : m.WellFormed) (hrest : m'.rest = m.rest)
    (hparts : ∀ key ∈ fieldNames, m'.part key = m.part key ∨
      ∃ value, m'.part key = some value ∧ Suits key value) : m'.WellFormed := by
  rw [wellFormed_iff] at h ⊢
  intro key value hvalue
  have hget (m : Metadata) : SortedMap.get? m.toMembers key =
      (m.part key).or (SortedMap.get? m.rest key) := m.get?_toMembers key
  have hsame (hpart : m'.part key = m.part key) : Suits key value := by
    apply h key value
    rwa [Shape.given?, hget, hpart, hrest, ← hget, ← Shape.given?] at hvalue
  by_cases hkey : key ∈ fieldNames
  · rcases hparts key hkey with hpart | ⟨new, hpart, hsuits⟩
    · exact hsame hpart
    · rw [Shape.given?, hget, hpart, Option.some_or] at hvalue
      obtain ⟨heq, -⟩ := Option.filter_eq_some_iff.mp hvalue
      exact Option.some.inj heq ▸ hsuits
  · apply hsame
    rw [part_of_notMem m' hkey, part_of_notMem m hkey]

/-! ### What a store writes into metadata -/

theorem fixed_text (hkey : key ∈ textKeys) (hne : key ≠ "creationTimestamp") (s : String) :
    Fixed key (.str s) := by
  simp only [textKeys, List.mem_cons, List.not_mem_nil, or_false] at hkey
  refine ⟨(⟨key, .optional⟩, .string), ?_, rfl, rfl, rfl⟩
  rcases hkey with rfl | rfl | rfl | rfl | rfl | rfl
  · simp [Schema.objectMeta, Shape.fields, optional]
  · simp [Schema.objectMeta, Shape.fields, optional]
  · simp [Schema.objectMeta, Shape.fields, optional]
  · simp [Schema.objectMeta, Shape.fields, optional]
  · simp [Schema.objectMeta, Shape.fields, optional]
  · exact absurd rfl hne

theorem fixed_time {t : Timestamp} (h : t.Valid) : Fixed "creationTimestamp" (.str t.seconds) :=
  ⟨(⟨"creationTimestamp", .optional⟩, .time), by simp [Schema.objectMeta, Shape.fields, optional],
    rfl, rfl, Shape.decodeTime?_seconds h⟩

theorem fixed_generation {n : Int} (h : Shape.fits UInt64.size n = true) :
    Fixed "generation" (.int n) :=
  ⟨(⟨"generation", .optional⟩, .int64), mem_fields_generation, rfl, rfl,
    by rw [Json.int, Shape.decode?, if_pos h]; rfl⟩

theorem fixed_labels (labels : Labels) : Fixed "labels" (labelsJson labels) := by
  have hdecode : ((labels.map fun e => (e.1, Json.str e.2)).mapM fun e =>
      (Shape.decode? .string e.2).map fun v => (e.1, v)) =
        some (labels.map fun e => (e.1, Json.str e.2)) := by
    induction labels with
    | nil => rfl
    | cons e labels ih =>
      rw [List.map_cons, List.mapM_cons, ih]
      rfl
  refine ⟨(⟨"labels", .optional⟩, .map .string),
    by simp [Schema.objectMeta, Shape.fields, optional], rfl, rfl, ?_⟩
  rw [labelsJson, Shape.decode?, hdecode]
  rfl

namespace WellFormed

variable {m : Metadata}

theorem name (h : m.WellFormed) (s : String) : WellFormed { m with name := some s } := by
  refine h.parts rfl ?_
  simp only [fieldNames, List.forall_mem_cons]
  exact ⟨.inr ⟨_, rfl, (fixed_text (by decide) (by decide) s).suits⟩, .inl rfl, .inl rfl, .inl rfl,
    .inl rfl, .inl rfl, .inl rfl, .inl rfl, List.forall_mem_nil _⟩

theorem labels (h : m.WellFormed) (labels : Labels) :
    WellFormed { m with labels := some labels } := by
  refine h.parts rfl ?_
  simp only [fieldNames, List.forall_mem_cons]
  exact ⟨.inl rfl, .inl rfl, .inl rfl, .inl rfl, .inl rfl, .inl rfl, .inl rfl,
    .inr ⟨_, rfl, (fixed_labels labels).suits⟩, List.forall_mem_nil _⟩

theorem resourceVersion (h : m.WellFormed) (s : String) :
    WellFormed { m with resourceVersion := some s } := by
  refine h.parts rfl ?_
  simp only [fieldNames, List.forall_mem_cons]
  exact ⟨.inl rfl, .inl rfl, .inl rfl, .inl rfl,
    .inr ⟨_, rfl, (fixed_text (by decide) (by decide) s).suits⟩, .inl rfl, .inl rfl, .inl rfl,
    List.forall_mem_nil _⟩

/-- What a store stamps on every object that it writes. -/
theorem identity (h : m.WellFormed) (uid version : String) {t : Timestamp} (ht : t.Valid) {n : Int}
    (hn : Shape.fits UInt64.size n = true) :
    WellFormed { m with
      uid := some uid
      creationTimestamp := some t.seconds
      generation := some n
      resourceVersion := some version } := by
  refine h.parts rfl ?_
  simp only [fieldNames, List.forall_mem_cons]
  exact ⟨.inl rfl, .inl rfl, .inl rfl,
    .inr ⟨_, rfl, (fixed_text (by decide) (by decide) uid).suits⟩,
    .inr ⟨_, rfl, (fixed_text (by decide) (by decide) version).suits⟩,
    .inr ⟨_, rfl, (fixed_time ht).suits⟩, .inr ⟨_, rfl, (fixed_generation hn).suits⟩, .inl rfl,
    List.forall_mem_nil _⟩

end WellFormed

end Metadata

/-! ## Objects of a kind -/

/-- The metadata that objects of the kind may have are the metadata of all objects. -/
def Kind.Formed (k : Kind) : Prop :=
  ∀ f ∈ k.fields, f.1.name = "metadata" → f.2 = Schema.objectMeta

theorem Kind.formed_known {k : Kind} (h : k ∈ Kind.known) : k.Formed :=
  fun _ hf hname => (regular_known h).shape_metadata hf hname

namespace Definition

variable {d : Definition} {o o' : Object}

theorem validate_eq_ok_iff :
    d.validate o = .ok () ↔
      (∀ types, o.types = some types → types = d.typeMeta) ∧
      (d.kind.decode? o.toJson).isSome = true := by
  have hshaped {e : Error} : (if (d.kind.decode? o.toJson).isSome then .ok () else .error e) =
      (.ok () : Except Error Unit) ↔ (d.kind.decode? o.toJson).isSome = true := by
    cases (d.kind.decode? o.toJson).isSome <;> simp
  unfold validate
  cases htypes : o.types with
  | none => simp [hshaped]
  | some types =>
    by_cases hown : types = d.typeMeta
    · simp [hown, hshaped]
    · simp [hown]

/-- **An object is decoded by its kind member by member.** -/
theorem isSome_decode?_iff :
    (d.kind.decode? o.toJson).isSome = true ↔
      Kind.agrees o.toMembers "apiVersion" d.kind.apiVersion = true ∧
      Kind.agrees o.toMembers "kind" d.kind.name = true ∧
      ∀ f ∈ d.kind.fields, Shape.Admits f (Shape.given? o.toMembers f.1.name) := by
  rw [← Shape.isSome_decodeFields?_iff, ← and_assoc, ← Bool.and_eq_true, Object.toJson,
    Kind.decode?]
  by_cases hagrees : (Kind.agrees o.toMembers "apiVersion" d.kind.apiVersion &&
      Kind.agrees o.toMembers "kind" d.kind.name) = true
  · rw [if_pos hagrees, Option.isSome_map]
    simp [hagrees]
  · rw [if_neg hagrees]
    simp [hagrees]

/-- An object stays valid if its type does and every member that its kind asks for. -/
theorem validate_congr (h : d.validate o = .ok ()) (htypes : o'.types = o.types)
    (hversion : SortedMap.get? o'.data "apiVersion" = SortedMap.get? o.data "apiVersion")
    (hkind : SortedMap.get? o'.data "kind" = SortedMap.get? o.data "kind")
    (hfields : ∀ f ∈ d.kind.fields, Shape.Admits f (Shape.given? o.toMembers f.1.name) →
      Shape.Admits f (Shape.given? o'.toMembers f.1.name)) : d.validate o' = .ok () := by
  rw [validate_eq_ok_iff] at h ⊢
  obtain ⟨hown, hdecode⟩ := h
  refine ⟨fun types h => hown types (htypes ▸ h), ?_⟩
  rw [isSome_decode?_iff] at hdecode ⊢
  obtain ⟨hagrees, hagrees', hadmits⟩ := hdecode
  have hhead (key : String) (hkey : key ≠ "metadata")
      (hdata : SortedMap.get? o'.data key = SortedMap.get? o.data key) :
      SortedMap.get? o'.toMembers key = SortedMap.get? o.toMembers key := by
    rw [Object.get?_toMembers, Object.get?_toMembers, hdata]
    simp only [Object.head, if_neg hkey, htypes]
  refine ⟨?_, ?_, fun f hf => hfields f hf (hadmits f hf)⟩
  · rwa [Kind.agrees, hhead "apiVersion" (by decide) hversion]
  · rwa [Kind.agrees, hhead "kind" (by decide) hkind]

/-- **A valid object stays valid with other metadata**, if these are well formed whenever its own
are. Its own need not be: data that came with a member of that name hide them. -/
theorem validate_metadata (hd : d.kind.Formed) (h : d.validate o = .ok ()) {m : Metadata}
    (hm : o.metadata.WellFormed → m.WellFormed) :
    d.validate { o with metadata := m } = .ok () := by
  refine validate_congr h rfl rfl rfl fun f hf hadmits => ?_
  rw [Shape.given?, Object.get?_toMembers] at hadmits ⊢
  by_cases hname : f.1.name = "metadata"
  · cases hdata : SortedMap.get? o.data f.1.name with
    | some value => rwa [hdata] at hadmits
    | none =>
      rw [hdata, Option.none_or, Object.head, if_pos hname] at hadmits
      simp only [Option.none_or, Object.head, if_pos hname] at hadmits ⊢
      obtain ⟨field, shape⟩ := f
      obtain rfl : shape = Schema.objectMeta := hd _ hf hname
      exact hm hadmits
  · simpa only [Object.head, if_neg hname] using hadmits

/-- **A valid object stays valid with the status of another one.** -/
theorem validate_setStatus (h : d.validate o = .ok ()) (h' : d.validate o' = .ok ()) :
    d.validate (o.setStatus o'.status) = .ok () := by
  have hget (key : String) : SortedMap.get? (o.setStatus o'.status).data key =
      if key = "status" then o'.status else SortedMap.get? o.data key := SortedMap.get?_set ..
  refine validate_congr h rfl ?_ ?_ fun f hf hadmits => ?_
  · rw [hget, if_neg (by decide)]
  · rw [hget, if_neg (by decide)]
  · rw [validate_eq_ok_iff, isSome_decode?_iff] at h'
    have hadmits' := h'.2.2.2 f hf
    rw [Shape.given?, Object.get?_toMembers] at hadmits hadmits' ⊢
    rw [hget]
    by_cases hname : f.1.name = "status"
    · rw [if_pos hname, hname]
      rw [hname] at hadmits'
      exact hadmits'
    · rw [if_neg hname]
      exact hadmits

end Definition

/-! ## What a store writes -/

namespace Definition

variable {d : Definition} {o : Object}

theorem validate_named (hd : d.kind.Formed) (h : d.validate o = .ok ()) (suffix : String) :
    d.validate (o.named suffix) = .ok () := by
  unfold Object.named
  split
  · split
    · exact validate_metadata hd h fun hm => hm.name _
    · exact h
  · exact h

theorem validate_mark (hd : d.kind.Formed) (h : d.validate o = .ok ()) (scope : Scope) :
    d.validate (scope.mark o) = .ok () := by
  cases scope with
  | all => exact h
  | partition p => exact validate_metadata hd h fun hm => hm.labels _

end Definition

theorem Table.validate_composed {t : Table} {current o : Object}
    (hcurrent : t.definition.validate current = .ok ()) (ho : t.definition.validate o = .ok ())
    (x : Option Subresource) : t.definition.validate (t.composed x current o) = .ok () := by
  cases x with
  | none =>
    rw [composed]
    split
    · exact Definition.validate_setStatus ho hcurrent
    · exact ho
  | some part =>
    cases part
    exact Definition.validate_setStatus hcurrent ho

theorem fits_nextGeneration (n : Int) :
    Shape.fits UInt64.size (Object.nextGeneration n) = true := by
  have hlow := Int.le_bmod (x := n + 1) (m := UInt64.size) (by decide)
  have hhigh := Int.bmod_lt (x := n + 1) (m := UInt64.size) (by decide)
  rw [Shape.fits, Object.nextGeneration, Bool.and_eq_true]
  simp only [UInt64.size] at hlow hhigh ⊢
  constructor
  · apply decide_eq_true
    omega
  · apply decide_eq_true
    omega

namespace Object

/-- An object as a store keeps it: it names its type and is valid for its kind, and it has the
identity, the time of creation and the generation that the store gave it. -/
structure Sound (d : Definition) (o : Object) : Prop where
  types : o.types = some d.typeMeta
  valid : d.validate o = .ok ()
  uid : ∃ uid, o.metadata.uid = some uid
  creationTimestamp : ∃ t : Timestamp, t.Valid ∧ o.metadata.creationTimestamp = some t.seconds
  generation : ∃ n, o.metadata.generation = some n ∧ Shape.fits UInt64.size n = true

variable {d : Definition} {o old : Object}

/-- **What is created is sound**, if it was valid before it got its identity. -/
theorem Sound.born (hd : d.kind.Formed) (htypes : o.types = some d.typeMeta)
    (h : d.validate o = .ok ()) {m : Moment} (hm : m.wall.Valid) (version : Version) :
    (o.born m version).Sound d where
  types := htypes
  valid := Definition.validate_metadata hd h fun hwell => hwell.identity m.uid version.text hm rfl
  uid := ⟨m.uid, rfl⟩
  creationTimestamp := ⟨m.wall, hm, rfl⟩
  generation := ⟨1, rfl, rfl⟩

/-- **What takes the place of a sound object is sound**, if it was valid before it got the identity
of that object. -/
theorem Sound.succeeding (hd : d.kind.Formed) (htypes : o.types = some d.typeMeta)
    (h : d.validate o = .ok ()) (hold : old.Sound d) (version : Version) :
    (o.succeeding old version).Sound d := by
  obtain ⟨uid, huid⟩ := hold.uid
  obtain ⟨t, ht, htime⟩ := hold.creationTimestamp
  obtain ⟨n, hn, hfits⟩ := hold.generation
  have hgeneration : ∃ n', (o.succeeding old version).metadata.generation = some n' ∧
      Shape.fits UInt64.size n' = true := by
    refine ⟨_, rfl, ?_⟩
    rw [hn, Option.getD_some]
    split
    · exact fits_nextGeneration n
    · exact hfits
  refine ⟨htypes, ?_, ⟨uid, huid⟩, ⟨t, ht, htime⟩, hgeneration⟩
  obtain ⟨n', hn', hfits'⟩ := hgeneration
  have hmetadata : (o.succeeding old version).metadata =
      { o.metadata with
        uid := some uid
        creationTimestamp := some t.seconds
        generation := some n'
        resourceVersion := some version.text } := by
    rw [← huid, ← htime, ← hn']
    rfl
  have hvalid := Definition.validate_metadata hd h fun hwell =>
    hwell.identity uid version.text ht hfits'
  rwa [← hmetadata] at hvalid

theorem Sound.stamped (hd : d.kind.Formed) (h : o.Sound d) (version : Version) :
    (o.stamped version).Sound d where
  types := h.types
  valid := Definition.validate_metadata hd h.valid fun hwell => hwell.resourceVersion version.text
  uid := h.uid
  creationTimestamp := h.creationTimestamp
  generation := h.generation

end Object

end ControlPlane
