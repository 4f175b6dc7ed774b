import ControlPlane.Proofs.StatusIsolation
import Mathlib.Data.List.Induction
import Mathlib.Data.List.Perm.Subperm

/-!
# The lineage of an object

The life of an object begins with a creation and goes on through replacements until it is deleted;
another creation at its key begins another life. A creation gives the object its uid, the time of
its creation and its first generation, whatever its document says about them. A replacement takes
them from the object it replaces, and raises the generation if the content differs: some member of
the data besides the status.

* `Object.contentDiffers_iff`: the content differs exactly if a member does, whichever way.
* `Object.Begun`, `Object.Continues`: what a creation and a replacement make of what they are given.
* `Store.Work.effect`: what a call commits begins a life, continues one, or ends some.
* `Store.lives_run`: every record of a run lives since a creation of it.
* `Store.lineage`: the same with every step of every life.
-/

namespace ControlPlane

/-! ## Objects -/

namespace Object

theorem mem_keys_content {o : Object} (h : SortedMap.Sorted o.data) (key : String) :
    key ∈ o.content.map (·.1) ↔
      key ≠ "status" ∧ (SortedMap.get? o.data key).isSome = true := by
  rw [Option.isSome_iff_exists]
  constructor
  · intro hkey
    obtain ⟨e, he, rfl⟩ := List.mem_map.mp hkey
    obtain ⟨hmem, hstatus⟩ := List.mem_filter.mp he
    exact ⟨of_decide_eq_true hstatus, e.2, SortedMap.get?_of_mem h hmem⟩
  · rintro ⟨hstatus, value, hvalue⟩
    have hmem : (key, value) ∈ o.content :=
      List.mem_filter.mpr ⟨SortedMap.mem_of_get? hvalue, decide_eq_true hstatus⟩
    exact List.mem_map_of_mem hmem

theorem nodup_keys_content {o : Object} (h : SortedMap.Sorted o.data) :
    (o.content.map (·.1)).Nodup := by
  rw [List.Nodup, List.pairwise_map]
  apply (SortedMap.sorted_filter h _).imp
  intro e e' hlt heq
  simp [heq] at hlt

theorem contentDiffers_eq_false_iff {old new : Object} :
    contentDiffers old new = false ↔ old.content.length = new.content.length ∧
      ∀ e ∈ old.content, (SortedMap.get? new.data e.1 == some e.2) = true := by
  have hvalue (value : Option Json) (json : Json) :
      (!value.any (· == json)) = false ↔ (value == some json) = true := by
    cases value <;> simp
  rw [contentDiffers, Bool.or_eq_false_iff, bne_eq_false_iff_eq, List.any_eq_false]
  simp only [Bool.not_eq_true, hvalue]

section Content

variable {old new : Object} (hold : SortedMap.Sorted old.data) (hnew : SortedMap.Sorted new.data)

include hold hnew

/-- If the members of the old content are those of the new one, the new one has no others, as it has
no more of them. -/
theorem mem_keys_of_contentDiffers (h : contentDiffers old new = false) (key : String) :
    key ∈ old.content.map (·.1) ↔ key ∈ new.content.map (·.1) := by
  obtain ⟨hlength, hvalues⟩ := contentDiffers_eq_false_iff.mp h
  have hsubset : old.content.map (·.1) ⊆ new.content.map (·.1) := by
    intro k hk
    obtain ⟨e, he, rfl⟩ := List.mem_map.mp hk
    have hvalue := hvalues e he
    refine (mem_keys_content hnew e.1).mpr ⟨((mem_keys_content hold e.1).mp hk).1, ?_⟩
    cases hget : SortedMap.get? new.data e.1 with
    | some value => rfl
    | none =>
      rw [hget] at hvalue
      cases hvalue
  have hperm : (old.content.map (·.1)).Perm (new.content.map (·.1)) := by
    apply (List.subperm_of_subset (nodup_keys_content hold) hsubset).perm_of_length_le
    simp [hlength]
  exact hperm.mem_iff

/-- **The content differs exactly if a member of the data besides the status does**: one is added,
removed or changed. -/
theorem contentDiffers_iff :
    contentDiffers old new = true ↔ ∃ key, key ≠ "status" ∧
      (SortedMap.get? new.data key == SortedMap.get? old.data key) = false := by
  rw [← not_iff_not, Bool.not_eq_true, not_exists]
  simp only [not_and, Bool.not_eq_false]
  constructor
  · intro h key hkey
    cases hget : SortedMap.get? old.data key with
    | some value =>
      exact (contentDiffers_eq_false_iff.mp h).2 (key, value)
        (List.mem_filter.mpr ⟨SortedMap.mem_of_get? hget, decide_eq_true hkey⟩)
    | none =>
      have habsent : key ∉ new.content.map (·.1) := by
        rw [← mem_keys_of_contentDiffers hold hnew h key, mem_keys_content hold, hget]
        simp
      rw [mem_keys_content hnew] at habsent
      have hnone : SortedMap.get? new.data key = none := by simpa [hkey] using habsent
      rw [hnone]
      rfl
  · intro h
    have hkeys (key : String) : key ∈ old.content.map (·.1) ↔ key ∈ new.content.map (·.1) := by
      rw [mem_keys_content hold, mem_keys_content hnew]
      refine and_congr_right fun hkey => ?_
      have hvalue := h key hkey
      revert hvalue
      cases SortedMap.get? old.data key <;> cases SortedMap.get? new.data key <;> simp
    have hperm := (List.perm_ext_iff_of_nodup (nodup_keys_content hold)
      (nodup_keys_content hnew)).mpr hkeys
    refine contentDiffers_eq_false_iff.mpr ⟨by simpa using hperm.length_eq, ?_⟩
    intro e he
    obtain ⟨hmem, hkey⟩ := List.mem_filter.mp he
    rw [← SortedMap.get?_of_mem hold hmem]
    exact h e.1 (of_decide_eq_true hkey)

end Content

/-- The generation of an object whose content was changed so often since its creation. -/
def generationAfter (changes : Nat) : Int := Int.bmod (1 + changes) UInt64.size

theorem nextGeneration_generationAfter (changes : Nat) :
    nextGeneration (generationAfter changes) = generationAfter (changes + 1) := by
  have hsucc : (1 + changes : Int) + 1 = 1 + (changes + 1 : Nat) := by omega
  unfold nextGeneration generationAfter
  rw [← hsucc]
  exact Int.bmod_add_bmod ..

/-- The generation counts as far as 64 bits reach. -/
theorem generationAfter_eq {changes : Nat} (h : changes + 1 < 2 ^ 63) :
    generationAfter changes = 1 + changes := by
  apply Int.bmod_eq_of_le
  · simp only [UInt64.size]
    omega
  · simp only [UInt64.size]
    omega

/-- The object begins its life at the moment. -/
structure Begun (m : Moment) (o : Object) : Prop where
  uid_eq : o.metadata.uid = some m.uid
  creationTimestamp_eq : o.metadata.creationTimestamp = some m.wall.seconds
  generation_eq : o.metadata.generation = some (generationAfter 0)

/-- The object continues the life of an older one. -/
structure Continues (new old : Object) : Prop where
  uid_eq : new.metadata.uid = old.metadata.uid
  creationTimestamp_eq : new.metadata.creationTimestamp = old.metadata.creationTimestamp
  generation_eq : ∀ n, old.metadata.generation = some n →
    new.metadata.generation = some (if contentDiffers old new then nextGeneration n else n)

theorem begun_born (o : Object) (m : Moment) (v : Version) : (o.born m v).Begun m :=
  ⟨rfl, rfl, rfl⟩

theorem continues_succeeding (o old : Object) (v : Version) :
    (o.succeeding old v).Continues old where
  uid_eq := rfl
  creationTimestamp_eq := rfl
  generation_eq n hn := by
    simp only [succeeding, hn, Option.getD_some]
    rfl

end Object

/-! ## One call -/

theorem Focus.continues_replace {f : Focus} {scope : Scope} {m : Moment} {verb : Verb}
    (hf : Filed f.table.definition f.table.records)
    (hkept : KeptAll f.table.records) {o new : Object}
    {expected : Option Version} {x : Option Subresource}
    (h : (f.replace scope m verb o expected x).1 = .ok new) :
    ∃ old, f.table.put new = .updated old new ∧ new.Continues old ∧
      (x.isSome = true → Object.contentDiffers old new = false) := by
  obtain ⟨key, r, next, hd, rfl⟩ := replace_eq_ok_iff.mp h
  obtain ⟨f', -, hc⟩ := replace_accepted 0 hf verb (m := m) hd
  obtain ⟨-, -, -, -, hget, -, -, rfl⟩ := Table.revision_eq_ok_iff.mp hd
  refine ⟨r.object, Store.Work.put_updated hget hc, Object.continues_succeeding _ _ _, ?_⟩
  intro hx
  cases x with
  | none => cases hx
  | some part =>
    cases part
    have hsame := Object.contentDiffers_setStatus (hkept key r hget).sorted
      (o.typedAs f.table.definition).status
    unfold Object.contentDiffers Object.content at hsame ⊢
    rw [Object.succeeding, Scope.data_mark]
    exact hsame

theorem Focus.continues_patch {f : Focus} {scope : Scope} {m : Moment}
    (hf : Filed f.table.definition f.table.records)
    (hkept : KeptAll f.table.records) {key : Key} {x : Option Subresource} {p : Patch}
    {new : Object} (h : (f.patch scope m key x p).1 = .ok new) :
    ∃ old, f.table.put new = .updated old new ∧ new.Continues old ∧
      (x.isSome = true → Object.contentDiffers old new = false) := by
  obtain ⟨o, read, -, hreplace⟩ := Focus.patch_eq_ok_iff.mp h
  exact Focus.continues_replace hf hkept hreplace

namespace Store

/-- The call writes a part of an object on its own. -/
def Work.writesPart : Work → Bool
  | .request (.update _ _ subresource) => subresource.isSome
  | .request (.patch _ subresource _) => subresource.isSome
  | .writeBack _ _ x => x.isSome
  | _ => false

/-- What the changes of a call do to the lives of objects. -/
inductive Work.Effect (m : Moment) : Work → List Change → Prop
  | ended {w : Work} {changes : List Change} :
      (∀ c ∈ changes, ∃ tombstone, c = .deleted tombstone) → Effect m w changes
  | begun {o new : Object} : new.Begun m → Effect m (.request (.create o)) [.created new]
  | continued {w : Work} {old new : Object} : new.Continues old →
      (w.writesPart = true → Object.contentDiffers old new = false) →
      Effect m w [.updated old new]

theorem isSome_of_mapM_subresource {d : Definition} {subresource : Option String}
    {x : Option Subresource} (h : subresource.mapM d.subresource = .ok x) :
    x.isSome = subresource.isSome := by
  cases subresource with
  | none =>
    cases h
    rfl
  | some name =>
    obtain ⟨_, -, rfl⟩ := map_eq_ok_iff.mp h
    rfl

namespace Work

variable {f : Focus} {scope : Scope} {m : Moment} {w : Work} {reply : Reply}

theorem Effect.of_nil (m : Moment) (w : Work) : Effect m w [] := .ended (List.forall_mem_nil _)

/-- A call that answers with what it puts in the place of an object continues the life of that
object, if whatever it may answer with does. -/
theorem effect_put {result : Except Error Object} {x : Option Subresource}
    (hpart : w.writesPart = x.isSome)
    (hchanges : ∀ o, w.changes f.table (.object o) = [f.table.put o])
    (h : result.map .object = .ok reply)
    (hresult : ∀ new, result = .ok new → ∃ old, f.table.put new = .updated old new ∧
      new.Continues old ∧ (x.isSome = true → Object.contentDiffers old new = false)) :
    w.Effect m (w.changes f.table reply) := by
  obtain ⟨new, hnew, rfl⟩ := map_eq_ok_iff.mp h
  obtain ⟨old, hput, hcontinues, hsame⟩ := hresult new hnew
  rw [hchanges, hput]
  exact .continued hcontinues fun hw => hsame (hpart ▸ hw)

theorem effect_create {o : Object} (h : (f.create scope m o).1.map .object = .ok reply) :
    Effect m (.request (.create o)) (changes f.table (.request (.create o)) reply) := by
  obtain ⟨new, hnew, rfl⟩ := map_eq_ok_iff.mp h
  obtain ⟨key, o', hd, rfl⟩ := Focus.create_eq_ok_iff.mp hnew
  obtain ⟨f', -, hc⟩ := Focus.create_accepted 0 hd
  obtain ⟨-, -, -, -, -, hnone⟩ := Table.creation_eq_ok_iff.mp hd
  rw [changes, put_created hnone hc]
  exact .begun (Object.begun_born _ _ _)

theorem effect_deleted (m : Moment) (w : Work) (tombstones : List Object) :
    Effect m w (tombstones.map .deleted) := by
  apply Effect.ended
  intro c hc
  obtain ⟨o, -, rfl⟩ := List.mem_map.mp hc
  exact ⟨o, rfl⟩

/-- **A call begins one life, continues one, or ends some.** -/
theorem effect (hf : ControlPlane.Filed f.table.definition f.table.records)
    (hkept : KeptAll f.table.records) (h : (w.serve scope m f).1 = .ok reply) :
    w.Effect m (w.changes f.table reply) := by
  cases w with
  | writeBack o read x =>
    exact effect_put rfl (fun _ => rfl) h fun _ => Focus.continues_replace hf hkept
  | request r =>
    cases r with
    | create o => exact effect_create h
    | get key =>
      obtain ⟨_, -, rfl⟩ := map_eq_ok_iff.mp h
      exact .of_nil m _
    | list criteria =>
      obtain ⟨_, -, rfl⟩ := map_eq_ok_iff.mp h
      exact .of_nil m _
    | watch criteria since timeout =>
      obtain ⟨_, -, rfl⟩ := map_eq_ok_iff.mp h
      exact .of_nil m _
    | update o expected subresource =>
      obtain ⟨x, hsubresource, hx⟩ := serve_update_ok h
      exact effect_put (isSome_of_mapM_subresource hsubresource).symm (fun _ => rfl) hx
        fun _ => Focus.continues_replace hf hkept
    | patch key subresource p =>
      obtain ⟨x, hsubresource, hx⟩ := serve_patch_ok h
      exact effect_put (isSome_of_mapM_subresource hsubresource).symm (fun _ => rfl) hx
        fun _ => Focus.continues_patch hf hkept
    | delete key precondition =>
      obtain ⟨o, -, rfl⟩ := map_eq_ok_iff.mp h
      exact effect_deleted m _ [o]
    | deleteCollection criteria =>
      obtain ⟨objects, -, rfl⟩ := map_eq_ok_iff.mp h
      exact effect_deleted m _ objects

end Work

end Store

/-! ## Commits that change the content -/

/-- The commit replaces an object by one of another content. -/
def Commit.changesContent (c : Commit) : Bool :=
  match c.change with
  | .updated old new => Object.contentDiffers old new
  | _ => false

namespace Store

variable {s : Store} {log : List Commit} {i : Nat} {key : Key} {o new : Object} {m : Moment}
  {after : List Action}

/-! ## The life of an object -/

/-- What is known of an object whose life began at a moment, some actions after its creation left
the store as it is: only replacements were committed at its key, and they kept its uid and the time
of its creation. Its generation is one more than the number of those that changed the content. -/
structure Lives (s : Store) (i : Nat) (key : Key) (m : Moment) (after : List Action) (o : Object) :
    Prop where
  replaced : ∀ c ∈ ofKey i key (s.log after), ∃ old new, c.change = .updated old new
  uid_eq : o.metadata.uid = some m.uid
  creationTimestamp_eq : o.metadata.creationTimestamp = some m.wall.seconds
  generation_eq : o.metadata.generation =
    some (Object.generationAfter ((ofKey i key (s.log after)).countP (·.changesContent)))

theorem lives_of_begun (s : Store) (i : Nat) (key : Key) (h : o.Begun m) :
    s.Lives i key m [] o where
  replaced c hc := by cases hc
  uid_eq := h.uid_eq
  creationTimestamp_eq := h.creationTimestamp_eq
  generation_eq := h.generation_eq

theorem Lives.quiet (h : s.Lives i key m after o) {a : Action}
    (ha : ofKey i key ((s.run after).commits a) = []) : s.Lives i key m (after ++ [a]) o := by
  have hlog : ofKey i key (s.log (after ++ [a])) = ofKey i key (s.log after) := by
    rw [log_append, ofKey_append, Store.log, Store.log, List.append_nil, ha, List.append_nil]
  refine ⟨?_, h.uid_eq, h.creationTimestamp_eq, ?_⟩
  · rw [hlog]
    exact h.replaced
  · rw [hlog]
    exact h.generation_eq

theorem Lives.continued (h : s.Lives i key m after o) {a : Action} {c : Commit}
    (ha : ofKey i key ((s.run after).commits a) = [c]) (hc : c.change = .updated o new)
    (hnew : new.Continues o) : s.Lives i key m (after ++ [a]) new := by
  have hlog : ofKey i key (s.log (after ++ [a])) = ofKey i key (s.log after) ++ [c] := by
    rw [log_append, ofKey_append, Store.log, Store.log, List.append_nil, ha]
  have hcontent : c.changesContent = Object.contentDiffers o new := by
    rw [Commit.changesContent, hc]
  refine ⟨?_, hnew.uid_eq.trans h.uid_eq,
    hnew.creationTimestamp_eq.trans h.creationTimestamp_eq, ?_⟩
  · intro c' hc'
    rw [hlog] at hc'
    rcases List.mem_append.mp hc' with hc' | hc'
    · exact h.replaced c' hc'
    · obtain rfl := List.mem_singleton.mp hc'
      exact ⟨o, new, hc⟩
  · rw [hnew.generation_eq _ h.generation_eq, hlog, List.countP_append, List.countP_singleton,
      hcontent]
    cases Object.contentDiffers o new with
    | false => simp only [Bool.false_eq_true, if_false, Nat.add_zero]
    | true => simp only [if_true, Object.nextGeneration_generationAfter]

/-- The object lives since some creation of the run. -/
def Lineage (s : Store) (actions : List Action) (i : Nat) (key : Key) (o : Object) : Prop :=
  ∃ before kind scope m document after version new,
    actions = before ++ .call kind scope m (.request (.create document)) :: after ∧
    (s.run before).commits (.call kind scope m (.request (.create document))) =
      [⟨i, key, version, .created new⟩] ∧
    ((s.run before).act (.call kind scope m (.request (.create document)))).2.Lives i key m after o

theorem lineage_of_begun {actions : List Action} {kind : String} {scope : Scope} {document : Object}
    {version : Version}
    (hcreated : (s.run actions).commits (.call kind scope m (.request (.create document))) =
      [⟨i, key, version, .created new⟩]) (hnew : new.Begun m) :
    s.Lineage (actions ++ [.call kind scope m (.request (.create document))]) i key new :=
  ⟨actions, kind, scope, m, document, [], version, new, rfl, hcreated, lives_of_begun _ i key hnew⟩

/-- What goes on with the life of an object goes on with its lineage. -/
theorem Lineage.extend {actions : List Action} (h : s.Lineage actions i key o) {a : Action}
    (hlives : ∀ (s' : Store) (m : Moment) (after : List Action), s'.run after = s.run actions →
      s'.Lives i key m after o → s'.Lives i key m (after ++ [a]) new) :
    s.Lineage (actions ++ [a]) i key new := by
  obtain ⟨before, kind, scope, m, document, after, version, first, rfl, hcreated, hlive⟩ := h
  refine ⟨before, kind, scope, m, document, after ++ [a], version, first, ?_, hcreated,
    hlives _ m after ?_ hlive⟩
  · simp
  · rw [run_append, run_cons]

/-! ## Runs -/

theorem kept_reached (catalog : Catalog) (limits : WatchLimits) {actions : List Action}
    (hactions : ∀ a ∈ actions, a.Ordered) {t : Table}
    (ht : ((empty catalog limits).run actions).tables[i]? = some t) : KeptAll t.records := by
  apply (follows_reached catalog limits actions).kept ?_ ht
  intro c hc
  exact kept_run (follows_empty catalog limits) (fun c hc => by cases hc) hactions c hc

/-- An action commits nothing, or it is a call and commits what has an effect. -/
theorem commits_effect (hs : s.Follows log)
    (hkept : ∀ (i : Nat) (t : Table), s.tables[i]? = some t → KeptAll t.records) (a : Action) :
    s.commits a = [] ∨ ∃ kind scope m w j d changes, a = .call kind scope m w ∧
      s.commits a = Commit.number j d s.version changes ∧ w.Effect m changes := by
  cases a with
  | call kind scope m w =>
    rcases onKind_cases s kind (w.serve scope m) with ⟨e, hkind⟩ | ⟨j, t, hfind, ht, hkind⟩
    · exact Or.inl (commits_call_error (congrArg Prod.fst hkind))
    · cases hresult : (w.serve scope m (s.focus t)).1 with
      | error e => exact Or.inl (commits_call_error ((congrArg Prod.fst hkind).trans hresult))
      | ok reply =>
        right
        refine ⟨kind, scope, m, w, j, t.definition, w.changes t reply, rfl,
          commits_call_ok ((congrArg Prod.fst hkind).trans hresult) hfind ht, ?_⟩
        exact Work.effect (f := s.focus t) (hs.tables j t ht).filed (hkept j t ht) hresult
  | _ => exact Or.inl rfl

theorem Follows.fits_act (hs : s.Follows log) (a : Action) {t t' : Table}
    (ht : s.tables[i]? = some t) (ht' : (s.act a).2.tables[i]? = some t') :
    Legal t'.definition t.records (ofTable i (s.commits a)) := by
  have hlegal := ((hs.act a).tables i t' ht').legal
  rw [ofTable_append, legal_append, ← (hs.tables i t ht).records_eq] at hlegal
  exact hlegal.2

/-- One more action goes on with the lineage of every record, or begins one. -/
theorem Lineage.step {actions : List Action} (hs : (s.run actions).Follows log)
    (hkept : ∀ (i : Nat) (t : Table), (s.run actions).tables[i]? = some t → KeptAll t.records)
    {t : Table} (ht : (s.run actions).tables[i]? = some t)
    (hlineage : ∀ r, SortedMap.get? t.records key = some r → s.Lineage actions i key r.object)
    (a : Action) {t' : Table} (ht' : ((s.run actions).act a).2.tables[i]? = some t') {r : Record}
    (hr : SortedMap.get? t'.records key = some r) :
    s.Lineage (actions ++ [a]) i key r.object := by
  rw [hs.get?_later (hs.act a) ht ht'] at hr
  cases hlast : (ofKey i key ((s.run actions).commits a)).getLast? with
  | none =>
    rw [hlast] at hr
    apply (hlineage r hr).extend
    intro s' m after hafter hlive
    exact hlive.quiet (by rw [hafter, List.getLast?_eq_none_iff.mp hlast])
  | some c =>
    rw [hlast] at hr
    obtain ⟨hmem, htable, hkey⟩ := mem_ofKey.mp (List.mem_of_getLast? hlast)
    have hlegal := hs.fits_act a ht ht'
    rcases commits_effect hs hkept a with
      hnone | ⟨kind, scope, m₀, w, j, d, changes, rfl, hcommits, heffect⟩
    · rw [hnone] at hmem
      cases hmem
    · rw [hcommits] at hmem hlegal
      have hchange := Commit.mem_number hmem
      cases heffect with
      | ended hended =>
        obtain ⟨tombstone, htombstone⟩ := hended _ hchange
        simp only [Commit.record?, htombstone] at hr
        cases hr
      | begun hbegun =>
        obtain rfl := List.mem_singleton.mp hmem
        obtain rfl := Option.some.inj hr
        subst htable hkey
        exact lineage_of_begun hcommits hbegun
      | @continued _ old new hcontinues hpart =>
        obtain rfl := List.mem_singleton.mp hmem
        obtain rfl := Option.some.inj hr
        subst htable hkey
        rw [ofTable_eq_self fun c hc => Commit.table_of_mem_number hc] at hlegal
        obtain ⟨hfits, -⟩ := hlegal
        cases hfits with
        | @updated r₀ _ hget hplaced =>
          apply (hlineage r₀ hget).extend
          intro s' m after hafter hlive
          have hone : ofKey j (d.keyOf new) ((s'.run after).commits (.call kind scope m₀ w)) =
              [⟨j, d.keyOf new, (s.run actions).version.next, .updated r₀.object new⟩] := by
            rw [hafter, hcommits]
            simp [ofKey, ofTable, Commit.number, Change.object]
          exact hlive.continued hone rfl hcontinues

/-- **Every record lives since a creation of it**, after every run. -/
theorem lives_run (catalog : Catalog) (limits : WatchLimits) {actions : List Action}
    (hactions : ∀ a ∈ actions, a.Ordered) {t : Table} {r : Record}
    (ht : ((empty catalog limits).run actions).tables[i]? = some t)
    (hr : SortedMap.get? t.records key = some r) :
    (empty catalog limits).Lineage actions i key r.object := by
  induction actions using List.reverseRecOn generalizing t r with
  | nil =>
    rw [run_nil, empty, List.getElem?_map] at ht
    obtain ⟨d, -, rfl⟩ := Option.map_eq_some_iff.mp ht
    cases hr
  | append_singleton actions a ih =>
    have hbefore : ∀ a' ∈ actions, a'.Ordered := by
      intro a' ha'
      exact hactions a' (List.mem_append_left _ ha')
    have hs := follows_reached catalog limits actions
    rw [run_append, run_cons, run_nil] at ht
    obtain ⟨t₀, ht₀⟩ := (sameKinds_act hs a).symm.table_some ht
    exact Lineage.step hs (fun _ _ => kept_reached catalog limits hbefore) ht₀
      (fun r₀ hr₀ => ih hbefore ht₀ hr₀) a ht hr

/-- What a run commits shows objects as a store keeps them. -/
theorem shows_kept (catalog : Catalog) (limits : WatchLimits) {actions : List Action}
    (hactions : ∀ a ∈ actions, a.Ordered) :
    ∀ c ∈ (empty catalog limits).log actions, c.change.Shows Object.Kept := by
  intro c hc
  have hs := follows_reached catalog limits actions
  have hleaves := leaves_run Object.lasting_kept (follows_empty catalog limits) (leaves_nil _ _)
    fun a ha => (hactions a ha).brings
  have hshows := hs.shows (fun _ o v ho => ⟨ho.sorted, ho.generation⟩) hleaves
  exact hshows c hc _ (List.getElem?_eq_getElem (hs.known c hc))

/-- **The lineage of an object.** After any run, every record lives since a creation: nothing but
replacements was committed at its key since, its uid and the time of its creation are those of the
moment of that creation, and its generation is one more than the number of those replacements that
changed the content, as far as 64 bits reach. Every replacement, by an update or by a patch, hands
on uid and time of creation, whatever it is given; it changes the content exactly if a member of the
data besides the status is added, removed or changed; and a write of the status never does. -/
theorem lineage (catalog : Catalog) (limits : WatchLimits) {actions : List Action}
    (hactions : ∀ a ∈ actions, a.Ordered) {s : Store}
    (hs : s = (empty catalog limits).run actions) :
    (∀ (i : Nat) (t : Table) (key : Key) (r : Record), s.tables[i]? = some t →
      SortedMap.get? t.records key = some r →
        (empty catalog limits).Lineage actions i key r.object) ∧
    (∀ n : Nat, n + 1 < 2 ^ 63 → Object.generationAfter n = 1 + n) ∧
    ∀ before kind scope m w after, actions = before ++ .call kind scope m w :: after →
      ∀ c ∈ ((empty catalog limits).run before).commits (.call kind scope m w),
      ∀ old new, c.change = .updated old new → new.Continues old ∧
        (c.changesContent = true ↔ ∃ key, key ≠ "status" ∧
          (SortedMap.get? new.data key == SortedMap.get? old.data key) = false) ∧
        (w.writesPart = true → c.changesContent = false) := by
  refine ⟨fun i t key r ht hr => lives_run catalog limits hactions (hs ▸ ht) hr,
    fun n hn => Object.generationAfter_eq hn, ?_⟩
  rintro before kind scope m w after rfl c hc old new hchange
  have hbefore : ∀ a ∈ before, a.Ordered := by
    intro a ha
    exact hactions a (List.mem_append_left _ ha)
  have hlogged : c ∈ (empty catalog limits).log (before ++ .call kind scope m w :: after) := by
    rw [log_append, Store.log]
    exact List.mem_append_right _ (List.mem_append_left _ hc)
  have hshows := shows_kept catalog limits hactions c hlogged
  rw [hchange] at hshows
  have hcontent : c.changesContent = Object.contentDiffers old new := by
    rw [Commit.changesContent, hchange]
  rw [hcontent]
  rcases commits_effect (follows_reached catalog limits before)
    (fun _ _ => kept_reached catalog limits hbefore) (.call kind scope m w) with
    hnone | ⟨_, _, _, _, j, d, changes, heq, hcommits, heffect⟩
  · rw [hnone] at hc
    cases hc
  · obtain ⟨rfl, rfl, rfl, rfl⟩ := Action.call.inj heq
    rw [hcommits] at hc
    have hmem := Commit.mem_number hc
    rw [hchange] at hmem
    cases heffect with
    | ended hended =>
      obtain ⟨tombstone, htombstone⟩ := hended _ hmem
      cases htombstone
    | begun hbegun => cases List.mem_singleton.mp hmem
    | continued hcontinues hpart =>
      obtain ⟨rfl, rfl⟩ := Change.updated.inj (List.mem_singleton.mp hmem)
      exact ⟨hcontinues, Object.contentDiffers_iff hshows.1.sorted hshows.2.sorted, hpart⟩

/-- The creation of a config map that gets a uid. -/
def bearConfig (uid : String) : Action :=
  .call "v1/ConfigMap" .all ⟨0, ⟨2024, 1, 1, 0, 0, 0, 0⟩, uid, "suffix"⟩
    (.request (.create ⟨none, { Metadata.empty with name := some "a", ns := some "default" }, []⟩))

/-- A config map is created, deleted, created again, and updated: the update adds a member, and
claims to be about another object. -/
def secondLife : List Action :=
  [bearConfig "first", configCall (.delete ⟨some "default", "a"⟩ none), bearConfig "second",
    configCall (.update
      ⟨none, { Metadata.empty with
        name := some "a", ns := some "default", uid := some "other", generation := some 7 },
        [("data", .obj [("key", .str "value")])]⟩ none none)]

/-- The config map has the uid of its second creation, and its second generation. -/
theorem lineage_configs :
    ∃ t r, (configStore.run secondLife).tables[0]? = some t ∧
      SortedMap.get? t.records ⟨some "default", "a"⟩ = some r ∧
      r.object.metadata.uid = some "second" ∧ r.object.metadata.generation = some 2 ∧
      configStore.Lineage secondLife 0 ⟨some "default", "a"⟩ r.object := by
  have hordered : ∀ a ∈ secondLife, a.Ordered := by
    simp only [secondLife, List.forall_mem_cons]
    exact ⟨.nil, trivial, .nil, List.pairwise_singleton _ _, List.forall_mem_nil _⟩
  obtain ⟨hlineage, -, -⟩ := lineage configCatalog ⟨2, 1000, 2⟩ hordered rfl
  exact ⟨_, _, rfl, rfl, rfl, rfl, hlineage 0 _ ⟨some "default", "a"⟩ _ rfl rfl⟩

end Store

end ControlPlane
