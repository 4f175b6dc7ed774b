import ControlPlane.Proofs.Collection
import ControlPlane.Proofs.Clients

/-!
# Complementary requirements

Two requirements are complements if they look at the same place and compare the other way: `path=v`
and `path!=v` for a field, `key in (..)` and `key notin (..)`, `key` and `!key` for a label. Added
to criteria, the one selects some of the listed objects and the other all the rest.

For labels this is so because the negative requirements hold where the label is absent. A field that
does not resolve meets neither of two complements, so for fields it rests on the paths a kind
accepts: they are exactly those that resolve in every object, whatever its payload. Criteria that
name any other path are refused.

* `Definition.resolve_isSome`: a path resolves exactly if it is accepted.
* `FieldRequirement.holds_complement`, `LabelRequirement.holds_complement`: one of two complements
  holds.
* `Store.complements_split`: lists under complements are halves of the list without them.
-/

namespace ControlPlane

/-! ## Requirements and their complements -/

namespace FieldRequirement

/-- The requirement that compares the other way. -/
def complement (r : FieldRequirement) : FieldRequirement :=
  match r.operator with
  | .equals => { r with operator := .differs }
  | .differs => { r with operator := .equals }

@[simp]
theorem complement_path (r : FieldRequirement) : r.complement.path = r.path := by
  unfold complement
  split <;> rfl

/-- Of two complements exactly one holds, if the field resolves. -/
theorem holds_complement (r : FieldRequirement) {field? : String → Option String}
    (h : (field? r.path).isSome) : r.complement.holds field? = !r.holds field? := by
  obtain ⟨value, hvalue⟩ := Option.isSome_iff_exists.mp h
  obtain ⟨path, operator, expected⟩ := r
  cases operator <;> simp only [complement, holds, hvalue, bne, Bool.not_not]

end FieldRequirement

namespace LabelRequirement

/-- The requirement that holds where the other does not. -/
def complement (r : LabelRequirement) : LabelRequirement :=
  match r.operator with
  | .oneOf => { r with operator := .noneOf }
  | .noneOf => { r with operator := .oneOf }
  | .present => { r with operator := .absent }
  | .absent => { r with operator := .present }

/-- Of two complements exactly one holds, for labels of every kind: the value of an absent label is
none of any values. -/
theorem holds_complement (r : LabelRequirement) (labels : Labels) :
    r.complement.holds labels = !r.holds labels := by
  obtain ⟨key, operator, values⟩ := r
  cases operator with
  | oneOf | noneOf =>
    simp only [complement, holds]
    cases SortedMap.get? labels key <;> simp
  | present | absent => simp only [complement, holds, Bool.not_not]

end LabelRequirement

/-! ## Criteria with one requirement more -/

namespace Criteria

/-- The criteria with one more requirement on a field. -/
def withField (c : Criteria) (r : FieldRequirement) : Criteria :=
  { c with fields := some ⟨(c.fields.map (·.requirements)).getD [] ++ [r]⟩ }

/-- The criteria with one more requirement on a label. -/
def withLabel (c : Criteria) (r : LabelRequirement) : Criteria :=
  { c with
    labels := some
      { matchLabels := c.labels.bind (·.matchLabels)
        matchExpressions := some ((c.labels.bind (·.matchExpressions)).getD [] ++ [r]) } }

/-- The paths that the field selector names, in order. -/
def paths (c : Criteria) : List String := (c.fields.map FieldSelector.paths).getD []

variable (c : Criteria) (x : Subject)

theorem matches_withField (r : FieldRequirement) :
    (c.withField r).matches x = (c.matches x && r.holds x.resolve) := by
  simp only [«matches», withField, Option.all_some, FieldSelector.matches, List.all_append,
    List.all_cons, List.all_nil, Bool.and_true, Bool.and_assoc]
  cases c.fields <;> rfl

theorem matches_withLabel (r : LabelRequirement) :
    (c.withLabel r).matches x = (c.matches x && r.holds x.labels) := by
  have hlabels : ((c.withLabel r).labels.all fun s => s.matches x.labels) =
      ((c.labels.all fun s => s.matches x.labels) && r.holds x.labels) := by
    cases h : c.labels with
    | none => simp [withLabel, LabelSelector.matches, h]
    | some s =>
      simp only [withLabel, LabelSelector.matches, h, Option.all_some, Option.bind_some,
        Option.getD_some, List.all_append, List.all_cons, List.all_nil, Bool.and_true]
      ac_rfl
  simp only [«matches», hlabels]
  simp only [withLabel]
  ac_rfl

theorem paths_withField (r : FieldRequirement) : (c.withField r).paths = c.paths ++ [r.path] := by
  cases h : c.fields <;> simp [paths, withField, FieldSelector.paths, h]

end Criteria

/-! ## Accepted paths -/

namespace Definition

variable (d : Definition)

/-- Selectors of the kind may name the path. -/
def accepts (path : String) : Bool := Criteria.isUniversal path || d.declares path

/-- The path for which criteria are refused: the first one that the kind does not accept. -/
def refuses? (c : Criteria) : Option String := c.paths.find? fun path => !d.accepts path

/-- **A path resolves in an object exactly if its kind accepts it**, whatever the object holds. -/
theorem resolve_isSome (o : Object) (path : String) :
    ((d.subject o).resolve path).isSome = d.accepts path := by
  unfold Subject.resolve accepts Criteria.isUniversal
  split
  · next hname => simp [hname]
  · next hname =>
    split
    · next hns => simp [hns]
    · next hns =>
      simp only [hname, hns, decide_false, Bool.or_self, Bool.false_or, subject, field?,
        Option.isSome_map, declares]
      exact List.isSome_find?

variable {d} {c : Criteria}

theorem refuses?_eq_none_iff :
    d.refuses? c = none ↔ ∀ path ∈ c.paths, d.accepts path = true := by
  simp [refuses?, List.find?_eq_none]

/-- A requirement on an accepted field makes no criteria refused. -/
theorem refuses?_withField (hc : d.refuses? c = none) {r : FieldRequirement}
    (hr : d.accepts r.path = true) : d.refuses? (c.withField r) = none := by
  refine refuses?_eq_none_iff.mpr fun path hmem => ?_
  rw [Criteria.paths_withField, List.mem_append, List.mem_singleton] at hmem
  rcases hmem with hmem | rfl
  · exact refuses?_eq_none_iff.mp hc path hmem
  · exact hr

/-- Criteria that name a path which is not accepted are refused for such a path. -/
theorem refuses?_of_mem {path : String} (hmem : path ∈ c.paths) (hpath : d.accepts path = false) :
    ∃ refused ∈ c.paths, d.accepts refused = false ∧ d.refuses? c = some refused := by
  cases h : d.refuses? c with
  | none =>
    rw [refuses?_eq_none_iff.mp h path hmem] at hpath
    cases hpath
  | some refused =>
    have hnot : (!d.accepts refused) = true :=
      List.find?_some (p := fun path => !d.accepts path) h
    exact ⟨refused, List.mem_of_find?_eq_some h, (Bool.not_eq_true' _).mp hnot, rfl⟩

end Definition

/-- Criteria pass exactly if they are not refused for a path. -/
theorem Table.requireDeclared_eq (t : Table) (c : Criteria) :
    t.requireDeclared c = match t.definition.refuses? c with
      | some path => .error (.invalidSelector (.unknownField path))
      | none => .ok () := rfl

/-! ## Halves of a list -/

/-- A list is divided into two, which keep its order and have nothing in common. -/
structure Halves {α : Type} (whole left right : List α) : Prop where
  left_sublist : left.Sublist whole
  right_sublist : right.Sublist whole
  disjoint : left.Disjoint right
  perm : (left ++ right).Perm whole

/-- Two tests of which exactly one succeeds divide a list. -/
theorem Halves.filter {α : Type} (whole : List α) {p q : α → Bool} (h : ∀ a, q a = !p a) :
    Halves whole (whole.filter p) (whole.filter q) := by
  obtain rfl : q = fun a => !p a := funext h
  refine ⟨List.filter_sublist, List.filter_sublist, ?_, List.filter_append_perm p whole⟩
  intro a hleft hright
  have hp := (List.mem_filter.mp hleft).2
  have hnot := (List.mem_filter.mp hright).2
  rw [hp] at hnot
  cases hnot

/-! ## Lists of a store -/

/-- The objects that criteria select through a scope, in the order of their keys. -/
def Table.selected (t : Table) (scope : Scope) (c : Criteria) : List Object :=
  (t.select ⟨c, scope⟩).map (·.2.object)

namespace Table

variable (t : Table) (scope : Scope) (c : Criteria)

theorem selected_eq_filter :
    t.selected scope c = (t.records.map (·.2.object)).filter fun o =>
      scope.contains o && c.matches (t.definition.subject o) := by
  rw [selected, select, List.filter_map]
  rfl

/-- The objects of a list that meet a further test are those of the criteria that have it. -/
theorem selected_eq_filter_selected {c' : Criteria} {p : Object → Bool}
    (h : ∀ o, c'.matches (t.definition.subject o) = (c.matches (t.definition.subject o) && p o)) :
    t.selected scope c' = (t.selected scope c).filter p := by
  rw [selected_eq_filter, selected_eq_filter, List.filter_filter]
  refine List.filter_congr fun o _ => ?_
  rw [h]
  ac_rfl

/-- Criteria with complementary requirements on an accepted field select halves. -/
theorem halves_withField {r : FieldRequirement} (hr : t.definition.accepts r.path = true) :
    Halves (t.selected scope c) (t.selected scope (c.withField r))
      (t.selected scope (c.withField r.complement)) := by
  rw [t.selected_eq_filter_selected scope c fun o => c.matches_withField _ r,
    t.selected_eq_filter_selected scope c fun o => c.matches_withField _ r.complement]
  refine Halves.filter _ fun o => r.holds_complement ?_
  rw [Definition.resolve_isSome, hr]

/-- Criteria with complementary requirements on a label select halves. -/
theorem halves_withLabel (r : LabelRequirement) :
    Halves (t.selected scope c) (t.selected scope (c.withLabel r))
      (t.selected scope (c.withLabel r.complement)) := by
  rw [t.selected_eq_filter_selected scope c fun o => c.matches_withLabel _ r,
    t.selected_eq_filter_selected scope c fun o => c.matches_withLabel _ r.complement]
  exact Halves.filter _ fun o => r.holds_complement _

end Table

namespace Store

variable {s : Store} {kind : String} {t : Table} {scope : Scope} {c : Criteria}

/-- A list by criteria shows the objects given, at the version of the store, and leaves the
store. -/
def Lists (s : Store) (kind : String) (scope : Scope) (c : Criteria) (objects : List Object) :
    Prop :=
  ∀ m, s.perform kind scope m (.list c) = (.ok (.listing ⟨objects, s.version⟩), s)

/-- Lists by two criteria are halves of the list by others. -/
def Divides (s : Store) (kind : String) (scope : Scope) (c left right : Criteria) : Prop :=
  ∃ whole first second, s.Lists kind scope c whole ∧ s.Lists kind scope left first ∧
    s.Lists kind scope right second ∧ Halves whole first second

/-- The criteria by which a request selects objects. -/
def Request.criteria? : Request → Option Criteria
  | .list c | .watch c _ _ | .deleteCollection c => some c
  | .create _ | .get _ | .update _ _ _ | .patch _ _ _ | .delete _ _ => none

/-- Whatever is asked by the criteria is refused for the path they name, whatever a store of the
kind holds, and leaves the store. -/
def Refused (d : Definition) (kind : String) (c : Criteria) (path : String) : Prop :=
  ∀ (s : Store) (t : Table), s.table kind = .ok t → t.definition = d →
    ∀ scope m (r : Request), r.criteria? = some c →
      s.perform kind scope m r = (.error (.invalidSelector (.unknownField path)), s)

/-- Criteria that are not refused are answered with what they select. -/
theorem lists_selected (ht : s.table kind = .ok t) (hc : t.definition.refuses? c = none) :
    s.Lists kind scope c (t.selected scope c) := by
  obtain ⟨i, hfind, ht⟩ := of_table_eq_ok ht
  intro m
  have hlist : (s.focus t).list scope c = .ok ⟨t.selected scope c, s.version⟩ :=
    list_eq_ok_iff.mpr ⟨by rw [Table.requireDeclared_eq, focus, hc], rfl⟩
  simp only [perform, onKind, hfind, ht, serve, hlist, absorb_focus ht]
  rfl

/-- Criteria are refused for the first path that the kind does not accept. -/
theorem refused_of_refuses? {d : Definition} {path : String} (hc : d.refuses? c = some path) :
    Refused d kind c path := by
  rintro s t ht rfl scope m r hr
  obtain ⟨i, hfind, ht⟩ := of_table_eq_ok ht
  have hdeclared : t.requireDeclared c = .error (.invalidSelector (.unknownField path)) := by
    rw [Table.requireDeclared_eq, hc]
  have hserve : serve scope m r (s.focus t) =
      (.error (.invalidSelector (.unknownField path)), s.focus t) := by
    cases r with
    | list c' =>
      obtain rfl := Option.some.inj hr
      simp only [serve, Focus.list, focus, hdeclared]
      rfl
    | watch c' since timeout =>
      obtain rfl := Option.some.inj hr
      simp only [serve, Focus.watch, Table.opening, focus, hdeclared]
      rfl
    | deleteCollection c' =>
      obtain rfl := Option.some.inj hr
      simp only [serve, Focus.deleteCollection, Table.removals, focus, hdeclared]
      rfl
    | create _ | get _ | update _ _ _ | patch _ _ _ | delete _ _ => cases hr
  simp only [perform, onKind, hfind, ht, hserve, absorb_focus ht]

/-- **Lists under complementary requirements are halves of the list without them**: for every field
that the kind accepts and every label, whatever the store holds. Criteria that name any other field
are refused, and for the same field whatever the store holds. -/
theorem complements_split (ht : s.table kind = .ok t) (scope : Scope) (c : Criteria) :
    ((∀ path ∈ c.paths, t.definition.accepts path = true) →
      (∀ r : FieldRequirement, t.definition.accepts r.path = true →
        s.Divides kind scope c (c.withField r) (c.withField r.complement)) ∧
      (∀ r : LabelRequirement,
        s.Divides kind scope c (c.withLabel r) (c.withLabel r.complement)) ∧
      ∃ whole, s.Lists kind scope c whole ∧ ∀ o, o ∈ whole ↔ (∃ e ∈ t.records, e.2.object = o) ∧
        scope.contains o = true ∧ c.matches (t.definition.subject o) = true) ∧
    ∀ path ∈ c.paths, t.definition.accepts path = false →
      ∃ refused ∈ c.paths, t.definition.accepts refused = false ∧
        Refused t.definition kind c refused := by
  constructor
  · intro haccepted
    have hc : t.definition.refuses? c = none := Definition.refuses?_eq_none_iff.mpr haccepted
    have hwhole := (lists_selected ht hc : s.Lists kind scope c _)
    refine ⟨fun r hr => ?_, fun r => ?_, _, hwhole, fun o => ?_⟩
    · have hr' : t.definition.accepts r.complement.path = true := r.complement_path.symm ▸ hr
      exact ⟨_, _, _, hwhole, lists_selected ht (Definition.refuses?_withField hc hr),
        lists_selected ht (Definition.refuses?_withField hc hr'), t.halves_withField scope c hr⟩
    · -- a requirement on labels names no path
      have hlabel : ∀ r', t.definition.refuses? (c.withLabel r') = none := fun _ => hc
      exact ⟨_, _, _, hwhole, lists_selected ht (hlabel r), lists_selected ht (hlabel r.complement),
        t.halves_withLabel scope c r⟩
    · rw [Table.selected_eq_filter, List.mem_filter, List.mem_map, Bool.and_eq_true]
  · intro path hmem hpath
    obtain ⟨refused, hmem, hnot, hc⟩ := Definition.refuses?_of_mem hmem hpath
    exact ⟨refused, hmem, hnot, refused_of_refuses? hc⟩

/-- The definition of nodes, of which a selector may say whether pods are put there. -/
def cordons : Definition :=
  { Definition.ofKind Schema.node with
    fields := [⟨"spec.unschedulable", ["spec", "unschedulable"]⟩] }

/-- A node with something in place of the mark that no pods are put there. -/
def nodeWith (name : String) (mark : List (String × Json)) : Object :=
  ⟨none, { Metadata.empty with name := some name }, [("spec", .obj mark)]⟩

/-- Three nodes: one is marked, one is not, and one has a list for a mark. -/
def cordonTable : Table :=
  let record (name : String) (mark : List (String × Json)) (version : Version) : Key × Record :=
    (⟨none, name⟩, ⟨nodeWith name mark, version⟩)
  { Table.empty cordons 2 with
    records := [record "a" [("unschedulable", .bool true)] 1, record "b" [] 2,
      record "c" [("unschedulable", .arr [])] 3] }

/-- The store of these nodes. -/
def cordonStore : Store :=
  { empty ⟨[cordons], [("v1/Node", 0)]⟩ ⟨2, 1000, 2⟩ with tables := [cordonTable], version := 3 }

theorem complements_split_cordons :
    cordonStore.Divides "v1/Node" .all .all
        (Criteria.all.withField ⟨"spec.unschedulable", .equals, "true"⟩)
        (Criteria.all.withField ⟨"spec.unschedulable", .differs, "true"⟩) ∧
      cordonStore.Lists "v1/Node" .all
        (Criteria.all.withField ⟨"spec.unschedulable", .differs, "true"⟩)
        [nodeWith "b" [], nodeWith "c" [("unschedulable", .arr [])]] ∧
      cordonStore.Divides "v1/Node" .all .all (Criteria.all.withLabel ⟨"k", .noneOf, ["v"]⟩)
        (Criteria.all.withLabel ⟨"k", .oneOf, ["v"]⟩) ∧
      cordonStore.perform "v1/Node" .all ⟨0, ⟨2024, 1, 1, 0, 0, 0, 0⟩, "uid", "suffix"⟩
          (.watch (Criteria.all.withField ⟨"spec", .differs, ""⟩) none none) =
        (.error (.invalidSelector (.unknownField "spec")), cordonStore) := by
  have htable : cordonStore.table "v1/Node" = .ok cordonTable := rfl
  have hall := (complements_split htable .all .all).1 fun _ hmem => absurd hmem List.not_mem_nil
  obtain ⟨refused, hmem, -, hrefused⟩ := (complements_split htable .all
    (Criteria.all.withField ⟨"spec", .differs, ""⟩)).2 "spec" List.mem_cons_self rfl
  obtain rfl := List.mem_singleton.mp hmem
  exact ⟨hall.1 ⟨"spec.unschedulable", .equals, "true"⟩ rfl, fun _ => rfl,
    hall.2.1 ⟨"k", .noneOf, ["v"]⟩, hrefused _ _ rfl rfl _ _ _ rfl⟩

end Store

end ControlPlane
