import ControlPlane.Proofs.Holdings
import ControlPlane.Proofs.Patched
import ControlPlane.Schema.Kinds

/-!
# The status is written apart

Of a kind that writes the status apart, an update or a patch leaves the status as it is stored, and
one of the status leaves everything else. A write of the status takes everything but the status from
the stored object. What it could still change are the labels, which a scope marks, and the
generation, which grows with the content. Neither happens: the stored object is marked already if it
is visible, and its content is the same, as its members are in their order.

* `Object.Kept`, `Object.lasting_kept`, `Store.kept_run`: what holds of every stored object after
  every run.
* `Focus.replace_isolated`: one replacement, of an object or of its status.
* `Store.status_isolated`: every update and every patch, in one go or in two.
-/

namespace ControlPlane

/-! ## Objects -/

namespace Object

/-- An object as a store keeps it: the members of its data are in their order, and it has a
generation. -/
structure Kept (o : Object) : Prop where
  sorted : SortedMap.Sorted o.data
  generation : o.metadata.generation.isSome = true

theorem get?_content (o : Object) (key : String) :
    SortedMap.get? o.content key = if key ≠ "status" then SortedMap.get? o.data key else none := by
  rw [content, SortedMap.get?_filter_key o.data fun key => decide (key ≠ "status")]
  simp only [decide_eq_true_eq]

/-- The status is no part of the content. -/
theorem content_setStatus {o : Object} (h : SortedMap.Sorted o.data) (status : Option Json) :
    (o.setStatus status).content = o.content := by
  refine SortedMap.ext (SortedMap.sorted_filter (SortedMap.sorted_set h _ _) _)
    (SortedMap.sorted_filter h _) fun key => ?_
  rw [get?_content, get?_content, setStatus, SortedMap.get?_set]
  by_cases hkey : key = "status"
  · simp [hkey]
  · simp [hkey]

theorem contentDiffers_setStatus {o : Object} (h : SortedMap.Sorted o.data)
    (status : Option Json) : contentDiffers o (o.setStatus status) = false := by
  have hsame : (o.content.any fun e =>
      !(SortedMap.get? (o.setStatus status).data e.1).any (· == e.2)) = false := by
    rw [List.any_eq_false]
    intro e he
    obtain ⟨hmem, hkey⟩ := List.mem_filter.mp he
    have hget : SortedMap.get? (o.setStatus status).data e.1 = some e.2 := by
      rw [setStatus, SortedMap.get?_set, if_neg (by simpa using hkey)]
      exact SortedMap.get?_of_mem h hmem
    simp [hget, Json.beq_self]
  rw [contentDiffers, content_setStatus h, hsame, Bool.or_false, bne_self_eq_false]

/-- The object is another one but for its status and its resource version. -/
structure SameButStatus (new old : Object) : Prop where
  types_eq : new.types = old.types
  metadata_eq :
    new.metadata = { old.metadata with resourceVersion := new.metadata.resourceVersion }
  data_eq : ∀ key, key ≠ "status" → SortedMap.get? new.data key = SortedMap.get? old.data key

theorem sameButStatus_succeeding {old : Object} (h : old.Kept) (status : Option Json)
    (v : Version) : ((old.setStatus status).succeeding old v).SameButStatus old where
  types_eq := rfl
  metadata_eq := by
    obtain ⟨n, hn⟩ := Option.isSome_iff_exists.mp h.generation
    have hgeneration : some (if contentDiffers old (old.setStatus status) then
        nextGeneration (old.metadata.generation.getD 1) else old.metadata.generation.getD 1) =
        old.metadata.generation := by
      rw [contentDiffers_setStatus h.sorted, hn]
      rfl
    simp only [succeeding, hgeneration]
    rfl
  data_eq key hkey := (SortedMap.get?_set _ _ _ key).trans (if_neg hkey)

@[simp] theorem status_setStatus (o : Object) (status : Option Json) :
    (o.setStatus status).status = status := (SortedMap.get?_set ..).trans (if_pos rfl)

@[simp] theorem data_named (o : Object) (suffix : String) : (o.named suffix).data = o.data := by
  unfold named
  split
  · split <;> rfl
  · rfl

@[simp] theorem status_succeeding (o old : Object) (v : Version) :
    (o.succeeding old v).status = o.status := rfl

end Object

namespace Scope

variable {s : Scope} {o : Object}

@[simp] theorem status_mark (s : Scope) (o : Object) : (s.mark o).status = o.status := by
  cases s <;> rfl

@[simp] theorem data_mark (s : Scope) (o : Object) : (s.mark o).data = o.data := by
  cases s <;> rfl

/-- A write may leave an object in the scope that lies in it. -/
theorem fault?_of_contains (h : s.contains o = true) (kind : String) : s.fault? kind o = none := by
  cases s with
  | all => rfl
  | partition p =>
    obtain ⟨hlabel, hallows⟩ := Bool.and_eq_true_iff.mp h
    have hvalue : SortedMap.get? o.labels p.label = some p.value := by simpa using hlabel
    simp [fault?, hvalue, hallows]

/-- An object that lies in the scope is marked already. -/
theorem mark_of_contains (h : s.contains o = true) : s.mark o = o := by
  cases s with
  | all => rfl
  | partition p =>
    have hlabel : SortedMap.get? o.labels p.label = some p.value := by
      simpa using (Bool.and_eq_true_iff.mp h).1
    have hlabels : some o.labels = o.metadata.labels := by
      cases hnone : o.metadata.labels with
      | some labels => simp [Object.labels, hnone]
      | none => simp [Object.labels, hnone] at hlabel
    have hmark : (partition p).mark o =
        { o with metadata := { o.metadata with labels := some o.labels } } := by
      simp [mark, SortedMap.has, hlabel]
    rw [hmark, hlabels]

end Scope

/-- The objects of all records are as a store keeps them. -/
def KeptAll (records : SortedMap Key Record) : Prop :=
  ∀ key r, SortedMap.get? records key = some r → r.object.Kept

/-! ## One write -/

/-- What a write of an object, or of its status, leaves as it was. -/
def Subresource.Spares (old new : Object) : Option Subresource → Prop
  | none => new.status = old.status
  | some .status => new.SameButStatus old

namespace Focus

variable {f : Focus} {scope : Scope} {m : Moment} {key : Key}

/-- The object takes the place of the visible record at the key, and leaves what its write does not
address. -/
structure Isolated (f : Focus) (scope : Scope) (key : Key) (x : Option Subresource) (r : Record)
    (new : Object) : Prop where
  record_eq : f.table.record scope key = .ok r
  key_eq : f.table.definition.key new = .ok key
  put_eq : f.table.put new = .updated r.object new
  spares : Subresource.Spares r.object new x

theorem spares_composed (hstatus : f.table.definition.hasStatus = true) {r : Record}
    (hr : r.object.Kept) (hin : scope.contains r.object = true) (x : Option Subresource)
    (o : Object) (v : Version) :
    Subresource.Spares r.object
      ((scope.mark (f.table.composed x r.object o)).succeeding r.object v) x := by
  cases x with
  | none =>
    rw [Subresource.Spares, Object.status_succeeding, Scope.status_mark, Table.composed,
      if_pos hstatus, Object.status_setStatus]
  | some part =>
    cases part
    have hcontains : scope.contains (r.object.setStatus o.status) = true :=
      (Scope.contains_congr rfl rfl).trans hin
    rw [Subresource.Spares, Table.composed, Scope.mark_of_contains hcontains]
    exact Object.sameButStatus_succeeding hr _ v

/-- **A replacement leaves what it does not address.** -/
theorem replace_isolated (hf : Filed f.table.definition f.table.records)
    (hstatus : f.table.definition.hasStatus = true)
    (hkept : KeptAll f.table.records) {verb : Verb}
    {o new : Object} {expected : Option Version} {x : Option Subresource}
    (h : (f.replace scope m verb o expected x).1 = .ok new) :
    ∃ key r, f.table.definition.key o = .ok key ∧ (∀ v, expected = some v → v = r.version) ∧
      f.Isolated scope key x r new := by
  obtain ⟨key, r, next, hd, rfl⟩ := replace_eq_ok_iff.mp h
  obtain ⟨f', -, hc⟩ := replace_accepted 0 hf verb (m := m) hd
  obtain ⟨-, hkey, ⟨e, he, hv⟩, -, hget, hin, -, rfl⟩ := Table.revision_eq_ok_iff.mp hd
  rw [Definition.key_typedAs] at hkey
  refine ⟨key, r, hkey, ?_, Table.record_eq_ok_iff.mpr ⟨hget, hin⟩, hc.legal.1.placed.key_eq,
    Store.Work.put_updated hget hc, spares_composed hstatus (hkept key r hget) hin x _ _⟩
  rintro v rfl
  exact hv v (Except.ok.inj he).symm

theorem patch_isolated (hf : Filed f.table.definition f.table.records)
    (hstatus : f.table.definition.hasStatus = true)
    (hkept : KeptAll f.table.records)
    (hdistinct : f.table.Distinct) {new : Object} {x : Option Subresource} {p : Patch}
    (h : (f.patch scope m key x p).1 = .ok new) : ∃ r, f.Isolated scope key x r new := by
  obtain ⟨o, read, hd, hreplace⟩ := patch_eq_ok_iff.mp h
  obtain ⟨r, hr, rfl, -⟩ := patched_eq_ok hd
  obtain ⟨key', r', -, hversion, hisolated⟩ := replace_isolated hf hstatus hkept hreplace
  -- The record that is replaced is at the version that was read, so it is the one that was read.
  obtain rfl : key = key' := hdistinct key key' r r' (Table.record_eq_ok_iff.mp hr).1
    (Table.record_eq_ok_iff.mp hisolated.record_eq).1 (hversion _ rfl)
  exact ⟨r', hisolated⟩

end Focus

/-! ## Runs -/

/-- The record that the commit leaves, if any, is as a store keeps it. -/
def Commit.Keeps (c : Commit) : Prop := ∀ r, c.record? = some r → r.object.Kept

/-- **Creations and replacements store objects as a store keeps them**, if the objects that are
brought have their data in order. -/
theorem Object.lasting_kept :
    Object.Lasting (fun _ => Object.Kept) (fun o => SortedMap.Sorted o.data) fun _ => True where
  created {t scope m o o' key} v ho _ h := by
    obtain ⟨-, -, -, rfl, -⟩ := Table.creation_eq_ok_iff.mp h
    refine ⟨?_, rfl⟩
    rw [Object.born, Scope.data_mark, Object.data_named]
    exact ho
  replaced {t scope o next expected x key r} v ho hr h := by
    obtain ⟨-, -, -, -, -, -, -, rfl⟩ := Table.revision_eq_ok_iff.mp h
    refine ⟨?_, rfl⟩
    rw [Object.succeeding, Scope.data_mark]
    cases x with
    | none =>
      rw [Table.composed]
      split
      · exact SortedMap.sorted_set ho _ _
      · exact ho
    | some part =>
      cases part
      exact SortedMap.sorted_set hr.sorted _ _
  patched hcurrent h := Patch.sorted_applyTo hcurrent.sorted h

namespace Store

variable {s : Store} {log : List Commit}

/-- The objects that a call carries have their data in order. -/
def Work.Ordered : Work → Prop
  | .request (.create o) => SortedMap.Sorted o.data
  | .request (.update o _ _) => SortedMap.Sorted o.data
  | .writeBack o _ _ => SortedMap.Sorted o.data
  | _ => True

/-- The objects that an action carries have their data in order. -/
def Action.Ordered : Action → Prop
  | .call _ _ _ w => w.Ordered
  | _ => True

theorem Action.Ordered.brings {a : Action} (ha : a.Ordered) :
    a.Brings (fun o => SortedMap.Sorted o.data) fun _ => True := by
  cases a with
  | call kind scope m w =>
    cases w with
    | writeBack o read x => exact ha
    | request r =>
      cases r with
      | create o => exact ⟨ha, trivial⟩
      | update o expected subresource => exact ha
      | _ => trivial
  | _ => trivial

theorem Follows.kept (hs : s.Follows log) (hlog : ∀ c ∈ log, c.Keeps) {i : Nat} {t : Table}
    (ht : s.tables[i]? = some t) : KeptAll t.records :=
  hs.allHold (P := fun _ => Object.Kept) (fun c hc _ _ => hlog c hc) ht

/-- **What a run commits is as a store keeps it.** -/
theorem kept_run (hs : s.Follows log) (hlog : ∀ c ∈ log, c.Keeps) {actions : List Action}
    (hactions : ∀ a ∈ actions, a.Ordered) : ∀ c ∈ log ++ s.log actions, c.Keeps := by
  intro c hc
  have hleaves := leaves_run Object.lasting_kept hs (fun c hc _ _ => hlog c hc)
    fun a ha => (hactions a ha).brings
  have hknown := (follows_run hs actions).known c hc
  exact hleaves c hc _ (List.getElem?_eq_getElem hknown)

/-! ## Every write -/

/-- The call writes an object, or its status, at a key. -/
inductive Work.Writes (d : Definition) (key : Key) (x : Option Subresource) : Work → Prop
  | update {o : Object} {expected : Option Version} {subresource : Option String} :
      d.key o = .ok key → subresource.mapM d.subresource = .ok x →
      Writes d key x (.request (.update o expected subresource))
  | patch {subresource : Option String} {p : Patch} : subresource.mapM d.subresource = .ok x →
      Writes d key x (.request (.patch key subresource p))
  | writeBack {o : Object} {read : Version} : d.key o = .ok key →
      Writes d key x (.writeBack o read x)

theorem Work.Writes.isolated {f : Focus} {scope : Scope} {m : Moment} {key : Key}
    {x : Option Subresource} {w : Work} (hw : w.Writes f.table.definition key x)
    (hf : ControlPlane.Filed f.table.definition f.table.records)
    (hstatus : f.table.definition.hasStatus = true)
    (hkept : KeptAll f.table.records)
    (hdistinct : f.table.Distinct) {reply : Reply} (h : (w.serve scope m f).1 = .ok reply) :
    ∃ r new, reply = .object new ∧ w.changes f.table reply = [f.table.put new] ∧
      f.Isolated scope key x r new := by
  have replaced {verb : Verb} {o : Object} {expected : Option Version}
      (hkey : f.table.definition.key o = .ok key)
      (h : (f.replace scope m verb o expected x).1.map .object = .ok reply) :
      ∃ r new, reply = .object new ∧ f.Isolated scope key x r new := by
    obtain ⟨new, hnew, rfl⟩ := map_eq_ok_iff.mp h
    obtain ⟨key', r, hkey', -, hisolated⟩ := Focus.replace_isolated hf hstatus hkept hnew
    obtain rfl := Except.ok.inj (hkey.symm.trans hkey')
    exact ⟨r, new, rfl, hisolated⟩
  cases hw with
  | update hkey hx =>
    obtain ⟨r, new, rfl, hisolated⟩ := replaced hkey ((serve_update hx).symm.trans h)
    exact ⟨r, new, rfl, rfl, hisolated⟩
  | patch hx =>
    obtain ⟨new, hnew, rfl⟩ := map_eq_ok_iff.mp ((serve_patch hx).symm.trans h)
    obtain ⟨r, hisolated⟩ := Focus.patch_isolated hf hstatus hkept hdistinct hnew
    exact ⟨r, new, rfl, rfl, hisolated⟩
  | writeBack hkey =>
    obtain ⟨r, new, rfl, hisolated⟩ := replaced hkey h
    exact ⟨r, new, rfl, rfl, hisolated⟩

/-- **The status is written through its subresource only, and nothing else is.** After any run, and
through any scope, an update or a patch that succeeds replaces the visible object at its key. It
leaves the status as it is stored, whatever it says about it; one of the status leaves the type, the
other members of the data, and all of the metadata but the resource version. -/
theorem status_isolated (catalog : Catalog) (limits : WatchLimits) {before : List Action}
    (hbefore : ∀ a ∈ before, a.Ordered) {s : Store}
    (hs : s = (empty catalog limits).run before) {kind : String} {i : Nat} {t : Table}
    (hfind : s.find kind = .ok i) (ht : s.tables[i]? = some t)
    (hstatus : t.definition.hasStatus = true) {scope : Scope} {m : Moment} {w : Work} {key : Key}
    {x : Option Subresource} (hw : w.Writes t.definition key x) {reply : Reply}
    (h : (s.act (.call kind scope m w)).1 = .answer (.ok reply)) :
    ∃ r new, t.record scope key = .ok r ∧ reply = .object new ∧
      s.commits (.call kind scope m w) = [⟨i, key, s.version.next, .updated r.object new⟩] ∧
      Subresource.Spares r.object new x := by
  have hfollows := follows_reached catalog limits before
  have hlog : ∀ c ∈ (empty catalog limits).log before, c.Keeps := by
    intro c hc
    exact kept_run (follows_empty catalog limits) (fun c hc => by cases hc) hbefore c hc
  rw [← hs] at hfollows
  have hserve : (w.serve scope m (s.focus t)).1 = .ok reply := by
    rw [act_call hfind ht] at h
    exact Outcome.answer.inj h
  obtain ⟨r, new, rfl, hchanges, hisolated⟩ := Work.Writes.isolated (f := s.focus t) hw
    (hfollows.tables i t ht).filed hstatus (hfollows.kept hlog ht) (hfollows.distinct ht) hserve
  refine ⟨r, new, hisolated.record_eq, rfl, ?_, hisolated.spares⟩
  replace hchanges : w.changes t (.object new) = [t.put new] := hchanges
  have hput : t.put new = .updated r.object new := hisolated.put_eq
  have hkey : t.definition.key new = .ok key := hisolated.key_eq
  rw [commits_call_ok (Outcome.answer.inj h) hfind ht, hchanges, hput, Commit.number, Commit.number,
    Change.object, Definition.keyOf_eq hkey]

/-- A catalog of nodes alone, which write the status apart. -/
def nodeCatalog : Catalog := ⟨[(Definition.ofKind Schema.node).statusApart], [("v1/Node", 0)]⟩

/-- A call for nodes. -/
def nodeCall (r : Request) : Action :=
  .call "v1/Node" .all ⟨0, ⟨2024, 1, 1, 0, 0, 0, 0⟩, "uid", "suffix"⟩ (.request r)

/-- The creation of a node whose status says that it is new. -/
def createNode : Action :=
  nodeCall (.create ⟨none, { Metadata.empty with name := some "n" },
    [("status", .obj [("phase", .str "New")])]⟩)

/-- A patch of a node, or of its status, that sets a label and the phase in the status. -/
def labelNode (subresource : Option String) : Request :=
  .patch ⟨none, "n"⟩ subresource (.merge (.obj
    [("metadata", .obj [("labels", .obj [("zone", .str "a")])]),
      ("status", .obj [("phase", .str "Ready")])]))

/-- A patch of a node leaves its status, and one of the status leaves its labels and its
generation. -/
theorem status_isolated_nodes :
    ∃ t r new new', ((empty nodeCatalog ⟨2, 1000, 2⟩).run [createNode]).tables[0]? = some t ∧
      t.record .all ⟨none, "n"⟩ = .ok r ∧
      (((empty nodeCatalog ⟨2, 1000, 2⟩).run [createNode]).act (nodeCall (labelNode none))).1 =
        .answer (.ok (.object new)) ∧ new.status = r.object.status ∧
      (((empty nodeCatalog ⟨2, 1000, 2⟩).run [createNode]).act
        (nodeCall (labelNode (some "status")))).1 = .answer (.ok (.object new')) ∧
      new'.SameButStatus r.object := by
  have hordered : ∀ a ∈ [createNode], a.Ordered := by
    intro a ha
    obtain rfl := List.mem_singleton.mp ha
    exact List.pairwise_singleton _ _
  obtain ⟨r, new, hr, heq, -, hstatus⟩ := @status_isolated nodeCatalog ⟨2, 1000, 2⟩ _ hordered _ rfl
    "v1/Node" 0 _ rfl rfl rfl .all ⟨0, ⟨2024, 1, 1, 0, 0, 0, 0⟩, "uid", "suffix"⟩
    (.request (labelNode none)) ⟨none, "n"⟩ none (.patch rfl) _ rfl
  obtain ⟨r', new', hr', heq', -, hsame⟩ := @status_isolated nodeCatalog ⟨2, 1000, 2⟩ _ hordered _
    rfl "v1/Node" 0 _ rfl rfl rfl .all ⟨0, ⟨2024, 1, 1, 0, 0, 0, 0⟩, "uid", "suffix"⟩
    (.request (labelNode (some "status"))) ⟨none, "n"⟩ (some .status) (.patch rfl) _ rfl
  obtain rfl := Except.ok.inj (hr.symm.trans hr')
  obtain rfl := Reply.object.inj heq
  obtain rfl := Reply.object.inj heq'
  exact ⟨_, r, _, _, rfl, hr, rfl, hstatus, rfl, hsame⟩

end Store

end ControlPlane
