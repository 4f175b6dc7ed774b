import ControlPlane.Patch.Application
import ControlPlane.Proofs.Decision
import ControlPlane.Proofs.Document
import ControlPlane.Proofs.Settling

/-!
# The patched document

A patch makes of the document of an object a document that is read as an object again. Each of its
members comes from the patched document or from the earlier one, and then has its conditions
settled.

* `Patch.applyDocument_eq_ok_iff`: what a patch that succeeds decodes.
* `Patch.exists_merged`: merging gives an object whose members are in their order.
* `Patch.exists_isolate`, `Patch.exists_keepIdentity`: what is put back, member by member.
* `Patch.exists_settled`: the document that the result is decoded from, member by member.
-/

namespace ControlPlane

namespace SortedMap

variable {κ α : Type} [Ord κ] [Std.LawfulEqOrd κ] [DecidableEq κ]

theorem get?_set (m : SortedMap κ α) (k : κ) (v? : Option α) (j : κ) :
    get? (set m k v?) j = if j = k then v? else get? m j := by
  by_cases hj : j = k
  · subst hj
    rw [if_pos rfl]
    cases v? with
    | none => exact get?_erase_self m j
    | some v => exact get?_insert_self m j v
  · rw [if_neg hj]
    cases v? with
    | none => exact get?_erase_of_ne m hj
    | some v => exact get?_insert_of_ne m v hj

/-- Writing what is there, or removing what is not there, changes nothing. -/
theorem set_eq_self [Std.TransOrd κ] {m : SortedMap κ α} (hm : Sorted m) (k : κ) :
    set m k (get? m k) = m := by
  refine ext (sorted_set hm k _) hm fun j => ?_
  rw [get?_set]
  by_cases hj : j = k
  · rw [if_pos hj, hj]
  · rw [if_neg hj]

end SortedMap

namespace Patch

variable {d : Definition} {current r : Object} {strategic : Bool} {document : Json}
  {subresource : Option Subresource} {now : Timestamp}

/-- Where the conditions of a kind are. -/
def conditionPointers (d : Definition) : List Pointer := d.conditions.map Pointer.ofPath

theorem foldl_settleConditions (d : Definition) (earlier : Json) (now : Timestamp)
    (patched : Json) :
    d.conditions.foldl
        (fun patched path => settleConditions earlier now (Pointer.ofPath path) patched) patched =
      (Settling.of earlier (conditionPointers d)).settle now patched := by
  simp only [settleConditions_eq]
  rw [Settling.settle, Settling.of, conditionPointers, List.map_map, List.foldl_map]
  rfl

/-- **What a patch that succeeds decodes.** -/
theorem applyDocument_eq_ok_iff :
    applyDocument d current strategic document subresource now = .ok r ↔
      document.isObject = true ∧ requirePrecondition d current document = .ok () ∧
      ∃ patched, merged d strategic current.toJson document = .ok patched ∧
        Object.decode ((Settling.of current.toJson (conditionPointers d)).settle now
          (keepIdentity current.toJson (isolate d subresource current.toJson patched))) =
            .ok r := by
  rw [applyDocument]
  cases hobject : document.isObject with
  | false => simp [bind, Except.bind]
  | true =>
    simp only [Bool.not_true, Bool.false_eq_true, if_false, bind_eq_ok_iff,
      foldl_settleConditions, true_and]
    constructor
    · rintro ⟨⟨⟩, hversion, happlied⟩
      exact ⟨hversion, happlied⟩
    · rintro ⟨hversion, happlied⟩
      exact ⟨(), hversion, happlied⟩

/-! ## Merging -/

theorem sorted_strategicMembers {patch : Json.Members} {path : String} {target out : Json.Members}
    (h : SortedMap.Sorted target) (hout : strategicMembers d patch path target = .ok out) :
    SortedMap.Sorted out := by
  induction patch generalizing target with
  | nil =>
    rw [strategicMembers] at hout
    obtain rfl := Except.ok.inj hout
    exact h
  | cons e patch ih =>
    obtain ⟨key, value⟩ := e
    rw [strategicMembers] at hout
    split at hout
    · exact ih h hout
    · obtain ⟨value', -, hout⟩ := bind_eq_ok_iff.mp hout
      exact ih (SortedMap.sorted_set h key value') hout

theorem sorted_applyDeletions {path : String} {patch target out : Json.Members}
    (h : SortedMap.Sorted target) (hout : applyDeletions path patch target = .ok out) :
    SortedMap.Sorted out := by
  induction patch generalizing target with
  | nil =>
    obtain rfl := Except.ok.inj hout
    exact h
  | cons e patch ih =>
    obtain ⟨key, value⟩ := e
    rw [applyDeletions] at hout
    split at hout
    · exact ih h hout
    · split at hout
      · split at hout
        · exact ih (SortedMap.sorted_insert h _ _) hout
        · exact ih h hout
      · cases hout

theorem exists_strategic {patch target : Json.Members} {merged : Json}
    (h : applyStrategic d (.obj target) (.obj patch) = .ok merged) :
    ∃ members, merged = .obj members ∧ (SortedMap.Sorted target → SortedMap.Sorted members) := by
  obtain ⟨value, hvalue, h⟩ := bind_eq_ok_iff.mp h
  rw [strategicValue] at hvalue
  obtain ⟨directive, -, hvalue⟩ := bind_eq_ok_iff.mp hvalue
  split at hvalue
  · obtain rfl := pure_eq_ok_iff.mp hvalue
    cases h
  · obtain ⟨members, hmembers, hvalue⟩ := bind_eq_ok_iff.mp hvalue
    obtain ⟨members', hmembers', hvalue⟩ := bind_eq_ok_iff.mp hvalue
    obtain rfl := pure_eq_ok_iff.mp hvalue
    obtain rfl := pure_eq_ok_iff.mp h
    refine ⟨members', rfl, fun htarget => ?_⟩
    have hstart : SortedMap.Sorted (directive.start target) := by
      unfold Directive.start
      split
      · exact SortedMap.sorted_nil
      · exact htarget
    exact sorted_applyDeletions (sorted_strategicMembers hstart hmembers) hmembers'

/-- **Merging a document gives an object**, whose members are in their order. -/
theorem exists_merged {members : Json.Members} {patched : Json}
    (hdocument : document.isObject = true)
    (h : merged d strategic (.obj members) document = .ok patched) :
    ∃ out, patched = .obj out ∧ (SortedMap.Sorted members → SortedMap.Sorted out) := by
  cases document with
  | obj patch =>
    cases strategic with
    | true =>
      cases hstrategic : applyStrategic d (.obj members) (.obj patch) with
      | error fault =>
        simp only [merged, hstrategic, if_true] at h
        cases h
      | ok out =>
        simp only [merged, hstrategic, if_true] at h
        obtain rfl := Except.ok.inj h
        exact exists_strategic hstrategic
    | false =>
      obtain rfl := Except.ok.inj h
      exact ⟨_, rfl, Json.sorted_mergePatchMembers patch⟩
  | _ => cases hdocument

/-! ## Putting back -/

/-- **The status, or everything else, is put back.** -/
theorem exists_isolate (d : Definition) (subresource : Option Subresource)
    (earlier members : Json.Members) :
    ∃ out, isolate d subresource (.obj earlier) (.obj members) = .obj out ∧
      (SortedMap.Sorted earlier → SortedMap.Sorted members → SortedMap.Sorted out) ∧
      ∀ key, SortedMap.get? out key =
        if subresource = some .status ∧ key ≠ "status" ∨
            subresource = none ∧ d.hasStatus = true ∧ key = "status" then
          SortedMap.get? earlier key
        else SortedMap.get? members key := by
  cases subresource with
  | some part =>
    cases part
    refine ⟨_, rfl, fun h _ => SortedMap.sorted_set h _ _, fun key => ?_⟩
    rw [SortedMap.get?_set]
    by_cases hkey : key = "status"
    · subst hkey
      simp [Json.member?, Json.members]
    · simp [hkey]
  | none =>
    rw [isolate]
    by_cases hstatus : d.hasStatus = true
    · rw [if_pos hstatus]
      refine ⟨_, rfl, fun _ h => SortedMap.sorted_set h _ _, fun key => ?_⟩
      rw [SortedMap.get?_set]
      by_cases hkey : key = "status"
      · subst hkey
        simp [hstatus, Json.member?, Json.members]
      · simp [hkey]
    · rw [if_neg hstatus]
      exact ⟨members, rfl, fun _ h => h, fun key => by simp [hstatus]⟩

theorem get?_foldl_restore (earlier : Json.Members) (keys : List String) (members : Json.Members)
    (key : String) :
    SortedMap.get? (keys.foldl (restore earlier) members) key =
      if key ∈ keys then SortedMap.get? earlier key else SortedMap.get? members key := by
  induction keys generalizing members with
  | nil => simp
  | cons k keys ih =>
    rw [List.foldl_cons, ih, restore, SortedMap.get?_set]
    by_cases hk : key = k
    · subst hk
      simp
    · simp [hk]

theorem sorted_foldl_restore (earlier : Json.Members) (keys : List String)
    {members : Json.Members} (h : SortedMap.Sorted members) :
    SortedMap.Sorted (keys.foldl (restore earlier) members) := by
  induction keys generalizing members with
  | nil => exact h
  | cons k keys ih => exact ih (SortedMap.sorted_set h _ _)

/-- The members of the metadata; none if the metadata are not an object. -/
def metadataMembers (members : Json.Members) : Json.Members :=
  ((SortedMap.get? members "metadata").map Json.members).getD []

/-- The metadata with what identifies the object put back. -/
def keptMetadata (earlier members : Json.Members) : Json.Members :=
  identityKeys.foldl (restore (metadataMembers earlier)) (metadataMembers members)

theorem get?_keptMetadata (earlier members : Json.Members) (key : String) :
    SortedMap.get? (keptMetadata earlier members) key =
      if key ∈ identityKeys then SortedMap.get? (metadataMembers earlier) key
      else SortedMap.get? (metadataMembers members) key := get?_foldl_restore ..

/-- **The type and the members that identify the object are put back.** -/
theorem exists_keepIdentity (earlier members : Json.Members) :
    ∃ out, keepIdentity (.obj earlier) (.obj members) = .obj out ∧
      (SortedMap.Sorted members → SortedMap.Sorted out) ∧
      SortedMap.get? out "metadata" = some (.obj (keptMetadata earlier members)) ∧
      ∀ key, key ≠ "metadata" → SortedMap.get? out key =
        if key = "apiVersion" ∨ key = "kind" then SortedMap.get? earlier key
        else SortedMap.get? members key := by
  have hmetadata : SortedMap.get? (["apiVersion", "kind"].foldl (restore earlier) members)
      "metadata" = SortedMap.get? members "metadata" := by
    rw [get?_foldl_restore]
    exact if_neg (by simp)
  refine ⟨_, rfl, fun h => ?_, ?_, fun key hkey => ?_⟩
  · exact SortedMap.sorted_insert (sorted_foldl_restore _ _ h) _ _
  · rw [SortedMap.get?_insert_self, Json.members, hmetadata]
    rfl
  · rw [SortedMap.get?_insert_of_ne _ _ hkey, Json.members, get?_foldl_restore]
    simp only [List.mem_cons, List.not_mem_nil, or_false]

/-! ## The result -/

/-- **The document of the result, member by member.** Its metadata and its other members are those
of the document after putting back, with the conditions in them settled. -/
theorem exists_settled (d : Definition) (current : Object) (subresource : Option Subresource)
    (now : Timestamp) (merged : Json.Members) :
    ∃ isolated members metadata : Json.Members,
      isolate d subresource current.toJson (.obj merged) = .obj isolated ∧
      (Settling.of current.toJson (conditionPointers d)).settle now
        (keepIdentity current.toJson (.obj isolated)) = .obj members ∧
      (SortedMap.Sorted current.toMembers → SortedMap.Sorted merged →
        SortedMap.Sorted members) ∧
      SortedMap.get? members "metadata" = some (.obj metadata) ∧
      (∀ key, SortedMap.get? metadata key =
        (SortedMap.get? (keptMetadata current.toMembers isolated) key).map
          ((((Settling.of current.toJson (conditionPointers d)).under "metadata").under
            key).settle now)) ∧
      ∀ key, key ≠ "metadata" → SortedMap.get? members key =
        (if key = "apiVersion" ∨ key = "kind" then SortedMap.get? current.toMembers key
          else SortedMap.get? isolated key).map
          (((Settling.of current.toJson (conditionPointers d)).under key).settle now) := by
  obtain ⟨isolated, hisolated, hsorted, -⟩ :=
    exists_isolate d subresource current.toMembers merged
  obtain ⟨kept, hkept, hkeptSorted, hmetadata, hother⟩ :=
    exists_keepIdentity current.toMembers isolated
  obtain ⟨members, hmembers, hmembersSorted, hget⟩ :=
    (Settling.of current.toJson (conditionPointers d)).exists_settle_obj now kept
  obtain ⟨metadata, hsettled, -, hgetMetadata⟩ :=
    ((Settling.of current.toJson (conditionPointers d)).under "metadata").exists_settle_obj now
      (keptMetadata current.toMembers isolated)
  refine ⟨isolated, members, metadata, hisolated, ?_, ?_, ?_, hgetMetadata, ?_⟩
  · rw [← hmembers, ← hkept]
    rfl
  · intro hcurrent hmerged
    exact hmembersSorted (hkeptSorted (hsorted hcurrent hmerged))
  · rw [hget, hmetadata, Option.map_some, hsettled]
  · intro key hkey
    rw [hget, hother key hkey]

/-- A patch that succeeds merges an object, and decodes what is settled of it. -/
theorem exists_applied
    (h : applyDocument d current strategic document subresource now = .ok r) :
    ∃ merged : Json.Members,
      Patch.merged d strategic current.toJson document = .ok (.obj merged) ∧
      (SortedMap.Sorted current.toMembers → SortedMap.Sorted merged) ∧
      Object.decode ((Settling.of current.toJson (conditionPointers d)).settle now
        (keepIdentity current.toJson
          (isolate d subresource current.toJson (.obj merged)))) = .ok r := by
  obtain ⟨hobject, -, patched, hpatched, hdecode⟩ := applyDocument_eq_ok_iff.mp h
  obtain ⟨merged, rfl, hmerged⟩ := exists_merged hobject hpatched
  exact ⟨merged, hpatched, hmerged, hdecode⟩

/-- A patch that succeeds has a document. -/
theorem exists_applyDocument {p : Patch} (h : p.applyTo d current subresource now = .ok r) :
    ∃ strategic document, applyDocument d current strategic document subresource now = .ok r := by
  cases p with
  | merge document => exact ⟨false, document, h⟩
  | strategic document => exact ⟨true, document, h⟩
  | apply => cases h
  | edits => cases h

/-- A patch keeps the members of the data in their order. -/
theorem sorted_applyTo {p : Patch} (hcurrent : SortedMap.Sorted current.data)
    (h : p.applyTo d current subresource now = .ok r) : SortedMap.Sorted r.data := by
  obtain ⟨strategic, document, happly⟩ := exists_applyDocument h
  obtain ⟨merged, -, hmerged, hdecode⟩ := exists_applied happly
  obtain ⟨isolated, members, -, hisolated, hsettled, hsorted, -⟩ :=
    exists_settled d current subresource now merged
  rw [hisolated, hsettled] at hdecode
  have hearlier := Object.sorted_toMembers hcurrent
  exact Object.sorted_data_of_decode (hsorted hearlier (hmerged hearlier)) hdecode

end Patch

end ControlPlane
