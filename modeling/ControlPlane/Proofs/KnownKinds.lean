import ControlPlane.Proofs.NormalForm
import ControlPlane.Schema.Kinds

/-!
# What the known kinds have in common

The members of every known kind are regular, so that its documents have normal forms; none of them
is a part of the type, which a document names beside them; and the metadata of all objects are one
of them. What is said about the kinds elsewhere follows from this.

* `Kind.Regular`, `Kind.regular_known`: what a kind has, and that the known kinds have it.
* `Kind.Regular.shape_metadata`: nothing but metadata are called so.
-/

namespace ControlPlane

namespace Shape

/-- Of ascending members no two have the same name. -/
theorem Ascend.eq_of_name_eq {fields : List (Field × Shape)} (h : Ascend fields)
    {f g : Field × Shape} (hf : f ∈ fields) (hg : g ∈ fields) (hname : f.1.name = g.1.name) :
    f = g := by
  induction fields with
  | nil => cases hf
  | cons e fields ih =>
    obtain ⟨hlt, hfields⟩ := List.pairwise_cons.mp h
    rcases List.mem_cons.mp hf with rfl | hf'
    · rcases List.mem_cons.mp hg with rfl | hg'
      · rfl
      · exact absurd hname (ne_of_compare_lt (hlt g hg'))
    · rcases List.mem_cons.mp hg with rfl | hg'
      · exact absurd hname.symm (ne_of_compare_lt (hlt f hf'))
      · exact ih hfields hf' hg'

end Shape

namespace Kind

/-- The members of the kind are regular, none of them is a part of the type, and the metadata of all
objects are one of them. -/
structure Regular (k : Kind) : Prop where
  areRegular : Shape.areRegular k.fields = true
  untyped : ∀ f ∈ k.fields, f.1.name ≠ "apiVersion" ∧ f.1.name ≠ "kind"
  metadata : (⟨"metadata", .defaulted⟩, Schema.objectMeta) ∈ k.fields

theorem regular_known {k : Kind} (h : k ∈ known) : k.Regular := by
  have hregular : ∀ k ∈ known, Shape.areRegular k.fields = true := by decide +kernel
  have huntyped : ∀ k ∈ known, ∀ f ∈ k.fields, f.1.name ≠ "apiVersion" ∧ f.1.name ≠ "kind" := by
    decide +kernel
  refine ⟨hregular k h, huntyped k h, ?_⟩
  simp only [known, List.mem_cons, List.not_mem_nil, or_false] at h
  rcases h with rfl | rfl | rfl | rfl | rfl | rfl | rfl | rfl | rfl <;>
    simp [Schema.namespaceKind, Schema.node, Schema.pod, Schema.event, Schema.configMap,
      Schema.service, Schema.secret, Schema.lease, Schema.notedEvent, defaulted]

namespace Regular

variable {k : Kind}

theorem ascend (hk : k.Regular) : Shape.Ascend k.fields := Shape.ascend_of_areRegular hk.areRegular

/-- A member of the name of the metadata has the shape of the metadata of all objects. -/
theorem shape_metadata (hk : k.Regular) {f : Field × Shape} (hf : f ∈ k.fields)
    (hname : f.1.name = "metadata") : f.2 = Schema.objectMeta := by
  rw [hk.ascend.eq_of_name_eq hf hk.metadata hname]

end Regular

end Kind

end ControlPlane
