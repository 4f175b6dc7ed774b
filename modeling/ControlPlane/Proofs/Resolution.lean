import ControlPlane.Proofs.Clients
import ControlPlane.Text.Lemmas

/-!
# What the names of a catalog mean

Kinds may be registered in any order, some of them again and again, and several may want one short
name. What a name means can still be read off the registrations alone. A name with a slash is the
full name of a kind, and means what was registered under it last. A name without one is a short
name: it belongs to the kind that claimed it first, and means what was registered last under the
full name of that kind. A store built from the catalog has a table for each of these meanings.

* `Catalog.latest?`, `Catalog.claimant?`: what the registrations say about a name.
* `Catalog.lookup?_register`: what one registration changes about the meanings of names.
* `Catalog.Resolves`: names mean what the registrations say. One registration keeps it, and so do
  all.
* `Catalog.names_resolved`: the names of every catalog, and of every store built from one.
-/

namespace ControlPlane

namespace Catalog

/-! ## Slashes in names -/

/-- Neither the name of the kind nor its plural has a slash. -/
structure SlashFree (d : Definition) : Prop where
  name : '/' ∉ d.name.toList
  plural : '/' ∉ d.kind.plural.toList

instance (d : Definition) : Decidable (SlashFree d) :=
  decidable_of_iff ('/' ∉ d.name.toList ∧ '/' ∉ d.kind.plural.toList)
    ⟨fun h => ⟨h.1, h.2⟩, fun h => ⟨h.name, h.plural⟩⟩

theorem slash_of_toLower {c : Char} (h : c.toLower = '/') : c = '/' := by
  unfold Char.toLower at h
  split at h
  · next hupper =>
    -- a letter in lower case comes after every slash
    have hval := congrArg Char.val h
    have hlow : 65 ≤ c.val.toNat := hupper.1
    have hhigh : c.val.toNat ≤ 90 := hupper.2
    have hslash : (c.val.toNat + 32) % 4294967296 = 47 := congrArg UInt32.toNat hval
    omega
  · exact h

theorem SlashFree.shortNames {d : Definition} (h : SlashFree d) :
    ∀ x ∈ Catalog.shortNames d, '/' ∉ x.toList := by
  intro x hx
  rcases List.mem_cons.mp hx with rfl | hx
  · exact h.name
  rcases List.mem_cons.mp hx with rfl | hx
  · have hlowered : d.name.toLower.toList = d.name.toList.map Char.toLower := String.toList_map ..
    rw [hlowered]
    intro hslash
    obtain ⟨c, hc, hlower⟩ := List.mem_map.mp hslash
    exact h.name (slash_of_toLower hlower ▸ hc)
  · exact List.mem_singleton.mp hx ▸ h.plural

theorem toList_fullName (d : Definition) :
    d.fullName.toList = d.kind.apiVersion.toList ++ '/' :: d.name.toList := by
  rw [Definition.fullName, String.toList_append, String.toList_append, List.append_assoc]
  rfl

theorem slash_mem_fullName (d : Definition) : '/' ∈ d.fullName.toList := by
  rw [toList_fullName]
  exact List.mem_append_right _ List.mem_cons_self

theorem slash_mem_of_parts (group version kind : String) :
    '/' ∈ (fullName group version kind).toList := by
  unfold fullName
  split <;> simp

/-- A full name tells the version that objects name from the name of the kind. -/
theorem fullName_inj {d e : Definition} (hd : SlashFree d) (he : SlashFree e) :
    d.fullName = e.fullName ↔ d.kind.apiVersion = e.kind.apiVersion ∧ d.name = e.name := by
  rw [← String.toList_inj, toList_fullName, toList_fullName,
    Text.append_cons_inj_right hd.name he.name, String.toList_inj, String.toList_inj]

theorem toList_apiVersion {k : Kind} (h : k.group ≠ "") :
    k.apiVersion.toList = k.group.toList ++ '/' :: k.version.toList := by
  rw [Kind.apiVersion, if_neg (by simpa using h), String.toList_append, String.toList_append,
    List.append_assoc]
  rfl

/-- The version that objects name tells the group from the version. -/
theorem apiVersion_inj {k l : Kind} (hk : '/' ∉ k.version.toList) (hl : '/' ∉ l.version.toList) :
    k.apiVersion = l.apiVersion ↔ k.group = l.group ∧ k.version = l.version := by
  have hcore (k : Kind) (h : k.group = "") : k.apiVersion = k.version := if_pos (by simp [h])
  by_cases hkgroup : k.group = ""
  · by_cases hlgroup : l.group = ""
    · rw [hcore k hkgroup, hcore l hlgroup, hkgroup, hlgroup]
      simp
    · have hne : k.apiVersion ≠ l.apiVersion := fun heq =>
        hk (by rw [← hcore k hkgroup, heq, toList_apiVersion hlgroup]; simp)
      exact ⟨fun heq => absurd heq hne, fun heq => absurd (heq.1 ▸ hkgroup) hlgroup⟩
  · by_cases hlgroup : l.group = ""
    · have hne : k.apiVersion ≠ l.apiVersion := fun heq =>
        hl (by rw [← hcore l hlgroup, ← heq, toList_apiVersion hkgroup]; simp)
      exact ⟨fun heq => absurd heq hne, fun heq => absurd (heq.1 ▸ hlgroup) hkgroup⟩
    · rw [← String.toList_inj, toList_apiVersion hkgroup, toList_apiVersion hlgroup,
        Text.append_cons_inj_right hk hl, String.toList_inj, String.toList_inj]

/-! ## What the registrations say -/

/-- The definition that was registered last under a full name. -/
def latest? (registered : List Definition) (x : String) : Option Definition :=
  registered.reverse.find? (·.fullName == x)

/-- The definition that was registered first of those with a short name. -/
def claimant? (registered : List Definition) (x : String) : Option Definition :=
  registered.find? fun d => (shortNames d).contains x

variable {c : Catalog} {registered : List Definition} {d : Definition} {x : String}

theorem fullName_of_latest? (h : latest? registered x = some d) : d.fullName = x := by
  simpa using List.find?_some h

theorem isSome_latest?_iff :
    (latest? registered x).isSome = true ↔ ∃ d ∈ registered, d.fullName = x := by
  simp [latest?]

theorem latest?_concat (registered : List Definition) (d : Definition) (x : String) :
    latest? (registered ++ [d]) x =
      if x = d.fullName then some d else latest? registered x := by
  rw [latest?, List.reverse_concat, List.find?_cons]
  by_cases hx : x = d.fullName
  · rw [if_pos hx, beq_iff_eq.mpr hx.symm]
  · rw [if_neg hx, beq_eq_false_iff_ne.mpr (Ne.symm hx)]
    rfl

theorem claimant?_concat (registered : List Definition) (d : Definition) (x : String) :
    claimant? (registered ++ [d]) x =
      (claimant? registered x).or (if x ∈ shortNames d then some d else none) := by
  rw [claimant?, List.find?_append, List.find?_singleton]
  simp [claimant?]

theorem eraseDups_concat (names : List String) (x : String) :
    (names ++ [x]).eraseDups = if x ∈ names then names.eraseDups else names.eraseDups ++ [x] := by
  rw [List.eraseDups_append, List.removeAll, List.filter_singleton]
  by_cases hx : x ∈ names
  · simp [hx]
  · simp [hx, List.eraseDups_cons]

/-! ## One registration -/

/-- What a name means after a registration. The full name of the new definition means it, other
names mean what they meant, in the new definition if that has the same full name, and names that
meant nothing are taken. -/
theorem Built.lookup?_register (hc : c.Built registered)
    (hd : ∀ e, c.lookup? d.fullName = some e → e.fullName = d.fullName) (x : String) :
    (c.register d).lookup? x =
      if x = d.fullName then some d
      else match c.lookup? x with
        | some e => some (if e.fullName = d.fullName then d else e)
        | none => if x ∈ shortNames d then some d else none := by
  have hposition : (c.register d).definitions[c.position d]? = some d := by
    rw [hc.getElem?_register, if_pos rfl]
  rw [lookup?, get?_names_register]
  by_cases hx : x = d.fullName
  · rw [if_pos hx, if_pos hx, Option.bind_some, hposition]
  rw [if_neg hx, if_neg hx, lookup?]
  cases hname : SortedMap.get? c.names x with
  | none =>
    by_cases hshort : x ∈ shortNames d
    · simp only [if_pos hshort, Option.none_or, Option.bind_some, Option.bind_none, hposition]
    · simp only [if_neg hshort, Option.none_or, Option.bind_none]
  | some i =>
    have hlt := hc.leads x i hname
    have he := List.getElem?_eq_getElem hlt
    rw [Option.some_or, Option.bind_some, Option.bind_some, hc.getElem?_register, he]
    -- the definition stands where the new one is put exactly if it has the same full name
    have hat : i = c.position d ↔ c.definitions[i].fullName = d.fullName := by
      constructor
      · intro hi
        cases hfull : SortedMap.get? c.names d.fullName with
        | none =>
          rw [hi, position, hfull, Option.getD_none] at hlt
          exact absurd hlt (Nat.lt_irrefl _)
        | some j =>
          rw [Built.position_eq hfull] at hi
          subst hi
          exact hd _ (by rw [lookup?, hfull, Option.bind_some, he])
      · intro hfull
        exact (Built.position_eq (hfull ▸ hc.full i _ he)).symm
    by_cases hi : i = c.position d
    · exact (if_pos hi).trans (congrArg some (if_pos (hat.mp hi)).symm)
    · exact (if_neg hi).trans (congrArg some (if_neg (mt hat.mpr hi)).symm)

/-- The names of a catalog mean what the registrations say. -/
structure Resolves (c : Catalog) (registered : List Definition) : Prop where
  /-- There is one definition for each full name, in the order of the first registrations. -/
  definitions : c.definitions.map (·.fullName) = (registered.map (·.fullName)).eraseDups
  /-- A full name means what was registered under it last. -/
  full : ∀ x, '/' ∈ x.toList → c.lookup? x = latest? registered x
  /-- A short name means what was registered last under the full name of its claimant. -/
  short : ∀ x, '/' ∉ x.toList →
    c.lookup? x = (claimant? registered x).bind fun d => latest? registered d.fullName

theorem resolves_empty : empty.Resolves [] where
  definitions := rfl
  full _ _ := rfl
  short _ _ := rfl

namespace Resolves

theorem fullName_of_lookup? (h : c.Resolves registered) {e : Definition}
    (he : c.lookup? d.fullName = some e) : e.fullName = d.fullName :=
  fullName_of_latest? (h.full _ (slash_mem_fullName d) ▸ he)

/-- A registration adds its full name after the others, unless it is among them. -/
theorem definitions_register (hc : c.Built registered) (h : c.Resolves registered)
    (d : Definition) :
    (c.register d).definitions.map (·.fullName) =
      ((registered ++ [d]).map (·.fullName)).eraseDups := by
  rw [List.map_append, List.map_singleton, eraseDups_concat, ← h.definitions]
  cases hname : SortedMap.get? c.names d.fullName with
  | none =>
    have hnew : d.fullName ∉ registered.map (·.fullName) := by
      rw [List.mem_map, ← isSome_latest?_iff, ← h.full _ (slash_mem_fullName d), lookup?, hname]
      exact Bool.false_ne_true
    rw [if_neg hnew, Built.definitions_register hname, List.map_append, List.map_singleton]
  | some i =>
    have hlt := hc.leads _ _ hname
    have hfull : c.definitions[i].fullName = d.fullName :=
      h.fullName_of_lookup? (by rw [lookup?, hname, Option.bind_some, List.getElem?_eq_getElem hlt])
    have hold : d.fullName ∈ registered.map (·.fullName) := by
      rw [← List.mem_eraseDups, ← h.definitions, List.mem_map]
      exact ⟨_, List.getElem_mem hlt, hfull⟩
    have hset : (c.register d).definitions = c.definitions.set i d := by
      rw [Catalog.register, hname]
    have hlt' : i < (c.definitions.map (·.fullName)).length := by rwa [List.length_map]
    have hsame : d.fullName = (c.definitions.map (·.fullName))[i] := by rw [List.getElem_map, hfull]
    rw [if_pos hold, hset, List.map_set, hsame, List.set_getElem_self]

/-- **One registration keeps that names mean what the registrations say.** -/
theorem register (hc : c.Built registered) (h : c.Resolves registered) (hd : SlashFree d) :
    (c.register d).Resolves (registered ++ [d]) where
  definitions := definitions_register hc h d
  full x hx := by
    rw [hc.lookup?_register (fun e => h.fullName_of_lookup?) x, latest?_concat]
    by_cases hfull : x = d.fullName
    · rw [if_pos hfull, if_pos hfull]
    rw [if_neg hfull, if_neg hfull, h.full x hx]
    cases hlatest : latest? registered x with
    | none => exact if_neg fun hshort => hd.shortNames x hshort hx
    | some e => exact congrArg some (if_neg fun heq => hfull (fullName_of_latest? hlatest ▸ heq))
  short x hx := by
    have hfull : x ≠ d.fullName := fun heq => hx (heq ▸ slash_mem_fullName d)
    rw [hc.lookup?_register (fun e => h.fullName_of_lookup?) x, claimant?_concat, if_neg hfull,
      h.short x hx]
    cases hclaimant : claimant? registered x with
    | none =>
      by_cases hshort : x ∈ shortNames d
      · simp [hshort, latest?_concat]
      · simp [hshort]
    | some e =>
      have hregistered : (latest? registered e.fullName).isSome = true :=
        isSome_latest?_iff.mpr ⟨e, List.mem_of_find?_eq_some hclaimant, rfl⟩
      obtain ⟨e', he'⟩ := Option.isSome_iff_exists.mp hregistered
      simp only [Option.bind_some, Option.some_or, he', latest?_concat, fullName_of_latest? he']
      by_cases heq : e.fullName = d.fullName
      · rw [if_pos heq, if_pos heq]
      · rw [if_neg heq, if_neg heq]

/-- **All registrations keep it.** -/
theorem registerAll (hc : c.Built registered) (h : c.Resolves registered) {ds : List Definition}
    (hds : ∀ d ∈ ds, SlashFree d) : (c.registerAll ds).Resolves (registered ++ ds) := by
  induction ds generalizing c registered with
  | nil => simpa [Catalog.registerAll] using h
  | cons d ds ih =>
    obtain ⟨hd, hds⟩ := List.forall_mem_cons.mp hds
    have hall := ih (hc.register d) (h.register hc hd) hds
    rw [List.append_assoc, List.singleton_append] at hall
    exact hall

end Resolves

end Catalog

/-! ## Stores -/

/-- In a store of a catalog that was built, a name leads to the table of what it means. -/
theorem Store.table_built {s : Store} {registered : List Definition}
    (hc : s.catalog.Built registered) (hdefinitions : s.definitions = s.catalog.definitions)
    (x : String) : (s.table x).map (·.definition) = s.catalog.lookup x := by
  cases hname : SortedMap.get? s.catalog.names x with
  | none =>
    have hlookup : s.catalog.lookup x = .error (.unknownKind x) := by
      simp only [Catalog.lookup, Catalog.lookup?, hname, Option.bind_none]
    simp only [Store.table, Store.find, hlookup, bind, Except.bind, Except.map]
  | some i =>
    have hd := List.getElem?_eq_getElem (hc.leads x i hname)
    have hlookup := Catalog.Built.lookup_eq hname hd
    obtain ⟨hfind, t, ht, hdefinition⟩ := find_built hc hdefinitions hd hlookup
    simp only [Store.table, hfind, ht, hlookup, bind, Except.bind, pure, Except.pure, Except.map,
      hdefinition]

namespace Catalog

theorem lookup_eq_elim (c : Catalog) (x : String) :
    c.lookup x = (c.lookup? x).elim (.error (.unknownKind x)) .ok := by
  rw [lookup]
  cases c.lookup? x <;> rfl

/-- **Names mean what the registrations say.** The catalog has one definition for each full name,
in the order of the first registrations, and it is the last one. Full names, in one piece or in
parts, lead to the last definition of that name if there is one; short names lead to the last
definition under the full name of the first kind that claimed them. A store of the catalog finds a
table exactly where the catalog finds a definition, and it is the table of that definition. Two
kinds have one full name exactly if they have one group, version and name. -/
theorem names_resolved {registered : List Definition} (hslash : ∀ d ∈ registered, SlashFree d)
    (limits : WatchLimits) (actions : List Store.Action) {c : Catalog} {s : Store}
    (hc : c = empty.registerAll registered) (hs : s = (Store.empty c limits).run actions) :
    c.definitions.map (·.fullName) = (registered.map (·.fullName)).eraseDups ∧
      (∀ d ∈ c.definitions, latest? registered d.fullName = some d) ∧
      (∀ x, (latest? registered x).isSome = true ↔ ∃ d ∈ registered, d.fullName = x) ∧
      (∀ x, '/' ∈ x.toList →
        c.lookup x = (latest? registered x).elim (.error (.unknownKind x)) .ok) ∧
      (∀ group version kind, c.lookupFull group version kind =
        (latest? registered (fullName group version kind)).elim
          (.error (.unknownKind (fullName group version kind))) .ok) ∧
      (∀ x, '/' ∉ x.toList → c.lookup x =
        ((claimant? registered x).bind fun d => latest? registered d.fullName).elim
          (.error (.unknownKind x)) .ok) ∧
      (∀ x, (s.table x).map (·.definition) = c.lookup x) ∧
      (∀ d ∈ registered, ∀ e ∈ registered,
        (d.fullName = e.fullName ↔ d.kind.apiVersion = e.kind.apiVersion ∧ d.name = e.name) ∧
        ('/' ∉ d.kind.version.toList → '/' ∉ e.kind.version.toList →
          (d.fullName = e.fullName ↔
            (d.kind.group = e.kind.group ∧ d.kind.version = e.kind.version) ∧
              d.name = e.name))) := by
  have hbuilt : c.Built registered := hc ▸ built_empty.registerAll registered
  have hresolves : c.Resolves registered := hc ▸ resolves_empty.registerAll built_empty hslash
  refine ⟨hresolves.definitions, fun d hd => ?_, fun x => isSome_latest?_iff, fun x hx => ?_,
    fun group version kind => ?_, fun x hx => ?_, fun x => ?_, fun d hd e he => ?_⟩
  · obtain ⟨i, hi⟩ := List.getElem?_of_mem hd
    rw [← hresolves.full _ (slash_mem_fullName d), lookup?, hbuilt.full i d hi, Option.bind_some,
      hi]
  · rw [lookup_eq_elim, hresolves.full x hx]
  · rw [lookupFull, lookup_eq_elim, hresolves.full _ (slash_mem_of_parts group version kind)]
  · rw [lookup_eq_elim, hresolves.short x hx]
  · have hcatalog : s.catalog = c := hs ▸ Store.catalog_reached c limits actions
    have hdefinitions : s.definitions = s.catalog.definitions := by
      rw [hcatalog, hs, Store.definitions_reached]
    rw [Store.table_built (hcatalog ▸ hbuilt) hdefinitions, hcatalog]
  · have hnames := fullName_inj (hslash d hd) (hslash e he)
    exact ⟨hnames, fun hversion hversion' => hnames.trans
      (and_congr_left fun _ => apiVersion_inj hversion hversion')⟩

/-- Both kinds of events, and then the first of them again, with its status apart. -/
def eventsAgain : List Definition :=
  [.ofKind Schema.notedEvent, .ofKind Schema.event,
    (Definition.ofKind Schema.notedEvent).statusApart]

theorem names_resolved_events :
    (∀ d ∈ eventsAgain, SlashFree d) ∧
      (empty.registerAll eventsAgain).definitions.map (·.fullName) =
        ["events.k8s.io/v1/Event", "v1/Event"] ∧
      (empty.registerAll eventsAgain).lookup "Event" =
        .ok (Definition.ofKind Schema.notedEvent).statusApart ∧
      (empty.registerAll eventsAgain).lookup "v1/Event" = .ok (.ofKind Schema.event) := by
  have hslash : ∀ d ∈ eventsAgain, SlashFree d := by decide
  obtain ⟨hdefinitions, -, -, hfull, -, hshort, -⟩ :=
    names_resolved hslash ⟨2, 1000, 2⟩ [] rfl rfl
  refine ⟨hslash, hdefinitions.trans (by decide), (hshort "Event" (by decide)).trans ?_,
    (hfull "v1/Event" (by decide)).trans ?_⟩
  · rfl
  · rfl

end Catalog

end ControlPlane
