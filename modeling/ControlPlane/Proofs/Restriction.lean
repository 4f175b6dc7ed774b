import ControlPlane.Proofs.Bare
import ControlPlane.Proofs.Identity
import ControlPlane.Proofs.NamespacedClients

/-!
# Restrictions to namespaces

A partition may be restricted to some namespaces. An object of a kind without namespaces has none,
or an empty one. If it has none, no restriction concerns it: it lies in the restricted partition if
it lies in the unrestricted one, and a write through either makes the same of it. An empty namespace
is no namespace to the kind, but it is one to the restriction, which shuts the object out unless the
empty namespace is listed.

* `Scope.everywhere`: the scope without its restriction.
* `Scope.contains_everywhere`, `Scope.enroll_everywhere`: where a restriction makes no difference.
* `Scope.enroll_partition`: what it refuses elsewhere.
* `Object.Clear`: an object whose namespace is where it belongs. `Patch.ns_applyTo`: it keeps it.
-/

namespace ControlPlane

/-! ## Scopes without their restriction -/

namespace Scope

/-- The scope in all namespaces. -/
def everywhere : Scope → Scope
  | .all => .all
  | .partition p => .partition { p with namespaces := none }

/-- The scope is not restricted to other namespaces. -/
def allows : Scope → Option String → Bool
  | .all, _ => true
  | .partition p, ns => p.allows ns

variable {x : Scope} {o : Object} {kind : String}

theorem allows_none (x : Scope) : x.allows none = true := by
  cases x with
  | all => rfl
  | partition p =>
    obtain ⟨label, value, namespaces⟩ := p
    cases namespaces <;> rfl

/-- An object lies in the scope if it lies in the scope without its restriction and that allows
it. -/
theorem contains_eq_everywhere (x : Scope) (o : Object) :
    x.contains o = (x.everywhere.contains o && x.allows o.metadata.ns) := by
  cases x with
  | all => rfl
  | partition p => simp [contains, everywhere, allows, Partition.allows]

theorem mark_everywhere (x : Scope) (o : Object) : x.everywhere.mark o = x.mark o := by
  cases x <;> rfl

theorem contains_everywhere (h : x.allows o.metadata.ns = true) :
    x.everywhere.contains o = x.contains o := by
  rw [contains_eq_everywhere x, h, Bool.and_true]

theorem fault?_everywhere (h : x.allows o.metadata.ns = true) :
    x.everywhere.fault? kind o = x.fault? kind o := by
  cases x with
  | all => rfl
  | partition p =>
    replace h : p.allows o.metadata.ns = true := h
    have hfree : ({ p with namespaces := none } : Partition).allows o.metadata.ns = true := rfl
    simp only [everywhere, fault?, h, hfree]

/-- A partition refuses what it takes in all namespaces if it is restricted to others. -/
theorem enroll_partition (p : Partition) (kind : String) (o : Object) :
    (partition p).enroll kind o = ((partition p).everywhere.enroll kind o).bind fun o' =>
      if p.allows o.metadata.ns then .ok o'
      else .error (.forbidden (.otherNamespace (o.metadata.ns.getD "") p.value)) := by
  have hfree : ({ p with namespaces := none } : Partition).allows o.metadata.ns = true := rfl
  have hmark : (partition { p with namespaces := none }).mark o = (partition p).mark o := rfl
  simp only [everywhere, enroll, hmark, fault?, ns_mark, hfree, if_true]
  -- the label is looked at first, in either partition
  by_cases hlabel :
      (SortedMap.get? ((partition p).mark o).labels p.label).getD p.value ≠ p.value
  · simp only [if_pos hlabel]
    rfl
  · simp only [if_neg hlabel]
    cases p.allows o.metadata.ns <;> rfl

/-- **A restriction that allows the object makes no difference to a write.** -/
theorem enroll_everywhere (h : x.allows o.metadata.ns = true) :
    x.everywhere.enroll kind o = x.enroll kind o := by
  rw [enroll, enroll, mark_everywhere, fault?_everywhere (by rwa [ns_mark])]

end Scope

/-- An object that a kind without namespaces accepts has no namespace, or an empty one. -/
theorem Definition.ns_of_key {d : Definition} (hd : d.kind.namespaced = false) {o : Object}
    {key : Key} (h : d.key o = .ok key) : o.metadata.ns = none ∨ o.metadata.ns = some "" := by
  unfold Definition.key at h
  split at h
  · cases h
  · rw [hd] at h
    cases hns : o.metadata.ns with
    | none => exact Or.inl rfl
    | some ns =>
      by_cases hempty : ns = ""
      · exact Or.inr (congrArg some hempty)
      · have hfilter : o.metadata.ns.filter (!·.isEmpty) = some ns := by
          rw [hns]
          simp [Option.filter, hempty]
        rw [hfilter] at h
        cases h

/-- A list allows a namespace that is absent, and an empty one exactly if it is listed. -/
theorem Partition.allows_iff_listed {ns : Option String} (h : ns = none ∨ ns = some "")
    (label value : String) (namespaces : List String) :
    Partition.allows ⟨label, value, some (SortedSet.ofMembers namespaces)⟩ ns = true ↔
      ns ≠ some "" ∨ "" ∈ namespaces := by
  rcases h with rfl | rfl
  · simp [Partition.allows]
  · simp [Partition.allows, SortedSet.mem_ofMembers]

/-! ## Objects that keep their namespace -/

/-- The namespace of the object stands in its place alone, as it does in every object that was read
from a document. -/
structure Object.Clear (o : Object) : Prop where
  plain : o.Plain
  rest_none : SortedMap.get? o.metadata.rest "namespace" = none

theorem Object.clear_of_decode {json : Json} {o : Object} (h : decode json = .ok o) : o.Clear where
  plain := plain_of_decode h
  rest_none := by
    obtain ⟨members, metadata, -, -, rfl⟩ := decode_eq_ok_iff.mp h
    exact (SortedMap.get?_filter_key metadata (fun k => !Metadata.fieldNames.contains k)
      "namespace").trans (if_neg (by decide))

@[simp] theorem Object.rest_named (o : Object) (suffix : String) :
    (o.named suffix).metadata.rest = o.metadata.rest := by
  unfold named
  split
  · split <;> rfl
  · rfl

@[simp] theorem Scope.rest_mark (x : Scope) (o : Object) :
    (x.mark o).metadata.rest = o.metadata.rest := by
  cases x <;> rfl

theorem Object.Clear.congr {o o' : Object} (h : o.Clear) (hdata : o'.data = o.data)
    (hrest : o'.metadata.rest = o.metadata.rest) : o'.Clear :=
  ⟨(congrArg (SortedMap.get? · "metadata") hdata).trans h.plain, hrest ▸ h.rest_none⟩

theorem Object.Clear.setStatus {o : Object} (h : o.Clear) (status : Option Json) :
    (o.setStatus status).Clear :=
  ⟨(SortedMap.get?_set _ _ _ _).trans ((if_neg (by decide)).trans h.plain), h.rest_none⟩

theorem Object.Clear.composed {o current : Object} (h : o.Clear) (hcurrent : current.Clear)
    (t : Table) (subresource : Option Subresource) : (t.composed subresource current o).Clear := by
  cases subresource with
  | none =>
    rw [Table.composed]
    split
    · exact h.setStatus _
    · exact h
  | some part =>
    cases part
    exact hcurrent.setStatus _

theorem Object.Clear.get?_namespace {o : Object} (h : o.Clear) :
    SortedMap.get? (Patch.metadataMembers o.toMembers) "namespace" = o.metadata.ns.map .str := by
  have hget : SortedMap.get? o.toMembers "metadata" = some (.obj o.metadata.toMembers) := by
    rw [get?_toMembers, h.plain]
    rfl
  rw [Patch.metadataMembers, hget, Option.map_some, Option.getD_some, Json.members,
    Metadata.get?_toMembers, h.rest_none, Option.or_none]
  rfl

/-- **A patch leaves an object in its namespace.** -/
theorem Patch.ns_applyTo {d : Definition} {current r : Object} {p : Patch}
    {x : Option Subresource} {now : Timestamp} (hcurrent : current.Clear)
    (h : p.applyTo d current x now = .ok r) : r.metadata.ns = current.metadata.ns := by
  obtain ⟨strategic, document, happly⟩ := exists_applyDocument h
  obtain ⟨merged, -, -, hdecode⟩ := exists_applied happly
  obtain ⟨isolated, members, metadata, hisolated, hsettled, -, hmetadata, hget, -⟩ :=
    exists_settled d current x now merged
  rw [hisolated, hsettled] at hdecode
  obtain ⟨members', normal, heq, hnormal, rfl⟩ := Object.decode_eq_ok_iff.mp hdecode
  obtain rfl := Json.obj.inj heq
  rw [Object.metadataOf?, hmetadata] at hnormal
  obtain ⟨json, hjson, hout⟩ := Option.bind_eq_some_iff.mp hnormal
  obtain ⟨out, hfields, rfl⟩ := Option.map_eq_some_iff.mp
    ((Metadata.objectMeta_decode? metadata).symm.trans hjson)
  obtain rfl := Option.some.inj hout
  have hmem : (⟨"namespace", .optional⟩, .string) ∈ Schema.objectMeta.fields := by
    simp [Schema.objectMeta, Shape.fields, optional]
  -- what was put back is a text, so neither settling nor decoding changes it
  have hkept : SortedMap.get? metadata "namespace" = current.metadata.ns.map .str := by
    rw [hget, get?_keptMetadata, if_pos (by simp [identityKeys]), hcurrent.get?_namespace]
    refine map_settle_scalar _ now fun v hv => ?_
    obtain ⟨ns, -, rfl⟩ := Option.map_eq_some_iff.mp hv
    exact trivial
  have hns := Shape.get?_decodeFields? Shape.ascend_objectMeta hfields hmem
  rw [Shape.given?, hkept] at hns
  show (SortedMap.get? out "namespace").bind Json.text? = current.metadata.ns
  rw [hns]
  cases current.metadata.ns <;> rfl

end ControlPlane
