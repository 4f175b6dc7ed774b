import ControlPlane.Proofs.Precondition

/-!
# Versions that documents ask for

The document of a patch may give the resource version as a text. The patch then succeeds only on an
object whose version the text denotes; otherwise it is refused, and the store stays as it was.

No other value than a text is compared. A patch that gives the version as a number applies to an
object of any version.

* `Patch.AsksFor`: the document of the patch gives the version as a text.
* `Object.carried`: the version that an object carries.
* `Patch.requirePrecondition_eq_ok_iff`, `Patch.AsksFor.passes_iff`: which documents are let
  through.
* `Store.requested_version`: what becomes of a patch that asks for a version, after every run.
* `Store.number_passed_over`: a patch that gives the version as a number.
-/

namespace ControlPlane

/-- The version that an object carries. One without a version is at zero. -/
def Object.carried (o : Object) : Except Error Version :=
  (Version.parseOptional (o.metadata.resourceVersion.getD "")).map (·.getD 0)

theorem Object.Placed.carried_eq {d : Definition} {key : Key} {v w : Version} {o : Object}
    (h : o.Placed d key w) (hv : o.carried = .ok v) : v = w := by
  rw [carried, h.version_eq, Option.getD_some, Version.parseOptional_text] at hv
  split at hv
  · exact (Except.ok.inj hv).symm
  · cases hv

namespace Patch

variable {d : Definition} {current o : Object} {key : Key} {v w : Version} {p : Patch}
  {document : Json} {text : String} {subresource : Option Subresource} {now : Timestamp}

/-! ## Documents -/

/-- The text for the resource version in a document, if it is not empty. -/
def requested? (document : Json) : Option String :=
  (((document.member? "metadata").bind (·.member? "resourceVersion")).bind Json.text?).filter
    (!·.isEmpty)

theorem requested?_eq_some : requested? document = some text ↔
    (document.member? "metadata").bind (·.member? "resourceVersion") = some (.str text) ∧
      text.isEmpty = false := by
  rw [requested?, Option.filter_eq_some_iff, Bool.not_eq_true']
  refine and_congr_left' ?_
  cases (document.member? "metadata").bind (·.member? "resourceVersion") with
  | none => simp
  | some value => cases value <;> simp [Json.text?]

/-- Only a text that is not empty is read as a version. -/
theorem precondition?_eq (document : Json) : precondition? document =
    match requested? document with
    | none => .ok none
    | some text =>
      match Version.parse? text with
      | some v => .ok (some v)
      | none => .error (.invalidPatch (.badVersion text)) := by
  rw [precondition?, requested?]
  cases ((document.member? "metadata").bind (·.member? "resourceVersion")).bind Json.text? with
  | none => rfl
  | some text =>
    dsimp only
    rw [Option.filter_some]
    cases text.isEmpty <;> rfl

/-- A version that is read is compared with the one that the object carries. -/
theorem requirePrecondition_of_some (h : precondition? document = .ok (some v)) :
    requirePrecondition d current document = .ok () ↔ current.carried = .ok v := by
  rw [requirePrecondition, h, Object.carried, map_eq_ok_iff]
  change (Version.parseOptional _ >>= fun x => if v = x.getD 0 then _ else _) = _ ↔ _
  rw [bind_eq_ok_iff]
  refine exists_congr fun x => and_congr_right fun _ => ?_
  split
  · next hv => exact iff_of_true rfl hv.symm
  · next hv =>
    refine iff_of_false (fun hok => ?_) (Ne.symm hv)
    -- The key is read for the text of the refusal only.
    obtain ⟨key, -, hthrow⟩ := bind_eq_ok_iff.mp hok
    cases hthrow

/-- **A document is let through exactly if the version that it gives as a text is the one that the
object carries.** -/
theorem requirePrecondition_eq_ok_iff : requirePrecondition d current document = .ok () ↔
    ∀ text, requested? document = some text →
      ∃ v, Version.parse? text = some v ∧ current.carried = .ok v := by
  have hdocument := precondition?_eq document
  cases hrequested : requested? document with
  | none =>
    simp only [hrequested] at hdocument
    refine iff_of_true ?_ nofun
    rw [requirePrecondition, hdocument]
    rfl
  | some text =>
    cases hv : Version.parse? text with
    | none =>
      simp only [hrequested, hv] at hdocument
      refine iff_of_false (fun hok => ?_) (fun h => ?_)
      · rw [requirePrecondition, hdocument] at hok
        cases hok
      · obtain ⟨v, hsome, -⟩ := h text rfl
        cases hv.symm.trans hsome
    | some v =>
      simp only [hrequested, hv] at hdocument
      simp [requirePrecondition_of_some hdocument, hv]

/-! ## Patches -/

/-- The document of the patch gives the resource version as a text, which is not empty. -/
def AsksFor (text : String) (p : Patch) : Prop :=
  ∃ document, p.document? = some document ∧
    (document.member? "metadata").bind (·.member? "resourceVersion") = some (.str text) ∧
    text.isEmpty = false

/-- What is wrong with a patch that asks for another version than the current one. -/
def versionFault (d : Definition) (key : Key) (text : String) (current : Version) : Error :=
  match Version.parse? text with
  | some v => .conflict d.name key.text v current
  | none => .invalidPatch (.badVersion text)

theorem AsksFor.names (hp : p.AsksFor text) (hv : Version.parse? text = some v) : p.Names v := by
  obtain ⟨document, hdocument, hmember, -⟩ := hp
  exact ⟨document, text, hdocument, hmember, hv⟩

/-- The document that gives the version is compared before anything else is done. -/
theorem AsksFor.exists_rest (hp : p.AsksFor text) (d : Definition) (current : Object)
    (subresource : Option Subresource) (now : Timestamp) :
    ∃ document rest, requested? document = some text ∧ p.applyTo d current subresource now =
      (requirePrecondition d current document >>= fun _ => rest) := by
  obtain ⟨document, hdocument, hmember, htext⟩ := hp
  obtain ⟨metadata, hmetadata, -⟩ := Option.bind_eq_some_iff.mp hmember
  obtain ⟨rest, hrest⟩ := applyTo_eq d current hdocument
    (Json.isObject_of_member? hmetadata) subresource now
  exact ⟨document, rest, requested?_eq_some.mpr ⟨hmember, htext⟩, hrest⟩

/-- The document of a patch that asks for a version is let through if the object carries it. -/
theorem AsksFor.passes_iff (hp : p.AsksFor text) (hdocument : p.document? = some document) :
    requirePrecondition d current document = .ok () ↔
      ∃ v, Version.parse? text = some v ∧ current.carried = .ok v := by
  obtain ⟨document', hdocument', hmember, htext⟩ := hp
  obtain rfl := Option.some.inj (hdocument'.symm.trans hdocument)
  rw [requirePrecondition_eq_ok_iff, requested?_eq_some.mpr ⟨hmember, htext⟩]
  simp

/-- A patch that asks for a version succeeds only on an object that carries it. -/
theorem AsksFor.of_applyTo (hp : p.AsksFor text)
    (h : p.applyTo d current subresource now = .ok o) :
    ∃ v, Version.parse? text = some v ∧ current.carried = .ok v := by
  obtain ⟨document, rest, hrequested, hrest⟩ := hp.exists_rest d current subresource now
  rw [hrest] at h
  obtain ⟨_, hpass, -⟩ := bind_eq_ok_iff.mp h
  exact requirePrecondition_eq_ok_iff.mp hpass text hrequested

theorem AsksFor.applyTo_refused (hp : p.AsksFor text) (hcurrent : current.Placed d key w)
    (hw : w < UInt64.size) (hne : Version.parse? text ≠ some w)
    (subresource : Option Subresource) (now : Timestamp) :
    p.applyTo d current subresource now = .error (versionFault d key text w) := by
  cases hv : Version.parse? text with
  | some v =>
    have hvw : v ≠ w := fun h => hne (hv.trans (congrArg some h))
    rw [(hp.names hv).applyTo_conflict hcurrent subresource now hw hvw, versionFault, hv]
  | none =>
    obtain ⟨document, rest, hrequested, hrest⟩ := hp.exists_rest d current subresource now
    have hread := precondition?_eq document
    simp only [hrequested, hv] at hread
    rw [hrest, requirePrecondition, hread, versionFault, hv]
    rfl

end Patch

/-! ## Runs -/

namespace Store

variable {s : Store} {log : List Commit} {kind : String} {i : Nat} {t : Table} {scope : Scope}
  {m : Moment} {key : Key} {p : Patch} {text : String}

/-- What is made of a record by a patch that asks for a version is made of a record at this
version. -/
theorem Follows.read_requested (hs : s.Follows log) (ht : s.tables[i]? = some t)
    (hp : p.AsksFor text) {x : Option Subresource} {o : Object} {read : Version}
    (h : (s.focus t).patched scope m key x p = .ok (o, read)) :
    ∃ r, t.record scope key = .ok r ∧ r.version = read ∧ Version.parse? text = some read := by
  obtain ⟨r, hr, rfl, ho⟩ := Focus.patched_eq_ok h
  have hplaced := (hs.tables i t ht).filed key r (Table.record_eq_ok_iff.mp hr).1
  obtain ⟨v, hv, hcarried⟩ := hp.of_applyTo ho
  obtain rfl := hplaced.carried_eq hcarried
  exact ⟨r, hr, rfl, hv⟩

theorem Follows.requested (hs : s.Follows log) (hp : p.AsksFor text) {subresource : Option String}
    {reply : Reply}
    (h : (s.act (.call kind scope m (.request (.patch key subresource p)))).1 =
      .answer (.ok reply)) :
    ∃ i t r, s.find kind = .ok i ∧ s.tables[i]? = some t ∧ t.record scope key = .ok r ∧
      Version.parse? text = some r.version := by
  obtain ⟨i, t, hfind, ht, hserve, -⟩ := act_answered h
  obtain ⟨x, -, hx⟩ := Work.serve_patch_ok hserve
  obtain ⟨new, hnew, -⟩ := map_eq_ok_iff.mp hx
  obtain ⟨o, read, hpatched, -⟩ := Focus.patch_eq_ok_iff.mp hnew
  obtain ⟨r, hr, rfl, hv⟩ := hs.read_requested ht hp hpatched
  exact ⟨i, t, r, hfind, ht, hr, hv⟩

theorem Follows.not_requested (hs : s.Follows log) (hp : p.AsksFor text)
    (hfind : s.find kind = .ok i) (ht : s.tables[i]? = some t) {r : Record}
    (hr : t.record scope key = .ok r) (hsize : r.version < UInt64.size)
    (hne : Version.parse? text ≠ some r.version) {subresource : Option String}
    {x : Option Subresource} (hx : subresource.mapM t.definition.subresource = .ok x) :
    (s.act (.call kind scope m (.request (.patch key subresource p)))).1 =
      .answer (.error (Patch.versionFault t.definition key text r.version)) := by
  have hplaced := (hs.tables i t ht).filed key r (Table.record_eq_ok_iff.mp hr).1
  have hpatched : (s.focus t).patched scope m key x p =
      .error (Patch.versionFault t.definition key text r.version) := by
    have hrecord : (s.focus t).table.record scope key = .ok r := hr
    rw [Focus.patched, hrecord]
    change (p.applyTo t.definition r.object x m.wall >>= _) = _
    rw [hp.applyTo_refused hplaced hsize hne]
    rfl
  rw [act_call hfind ht, Work.serve_patch (f := s.focus t) hx, Focus.patch_refused hpatched]
  rfl

/-- **A version that a document gives as a text is a precondition.** Whatever the kind, the document
is let through exactly if the text denotes the version that the object carries, and the patch makes
nothing of any other object. After every run, and through whatever scope, the patch is answered
only if there is a visible record at this version; otherwise it is refused, and the store is as
before. On a visible record of another version the refusal tells both versions, or that the text
denotes none. -/
theorem requested_version (catalog : Catalog) (limits : WatchLimits) (before : List Action)
    {s : Store} (hs : s = (empty catalog limits).run before) {p : Patch} {text : String}
    (hp : p.AsksFor text) :
    (∀ d current document, p.document? = some document →
      (Patch.requirePrecondition d current document = .ok () ↔
        ∃ v, Version.parse? text = some v ∧ current.carried = .ok v)) ∧
    (∀ d current x now o, p.applyTo d current x now = .ok o →
      ∃ v, Version.parse? text = some v ∧ current.carried = .ok v) ∧
    ∀ kind scope m key subresource,
      ((∃ i t r, s.find kind = .ok i ∧ s.tables[i]? = some t ∧ t.record scope key = .ok r ∧
          Version.parse? text = some r.version) ∨
        ∃ e, s.act (.call kind scope m (.request (.patch key subresource p))) =
          (.answer (.error e), s)) ∧
      ∀ i t r x, s.find kind = .ok i → s.tables[i]? = some t → t.record scope key = .ok r →
        subresource.mapM t.definition.subresource = .ok x → r.version < UInt64.size →
        Version.parse? text ≠ some r.version →
          s.act (.call kind scope m (.request (.patch key subresource p))) =
            (.answer (.error (Patch.versionFault t.definition key text r.version)), s) := by
  have hfollows := follows_reached catalog limits before
  rw [← hs] at hfollows
  refine ⟨fun d current document h => hp.passes_iff h,
    fun d current x now o h => hp.of_applyTo h, ?_⟩
  intro kind scope m key subresource
  refine ⟨?_, ?_⟩
  · obtain ⟨result, hanswer, -⟩ :=
      call_cases hfollows.filed kind scope m (.request (.patch key subresource p))
    cases result with
    | ok reply => exact Or.inl (hfollows.requested hp hanswer)
    | error e => exact Or.inr ⟨e, Prod.ext hanswer (act_refused hfollows hanswer)⟩
  · intro i t r x hfind ht hr hx hsize hne
    have hanswer := hfollows.not_requested (m := m) hp hfind ht hr hsize hne hx
    exact Prod.ext hanswer (act_refused hfollows hanswer)

/-- A merge patch that gives a value for the resource version and changes the data. -/
def versionedPatch (version : Json) : Patch :=
  .merge (.obj [("data", .obj [("k", .str "v")]),
    ("metadata", .obj [("resourceVersion", version)])])

/-- A config map is at the first version. A patch that asks for the seventh is a conflict. -/
theorem requested_version_configs :
    (configStore.run [createConfig "a"]).act
        (configCall (.patch ⟨some "default", "a"⟩ none (versionedPatch (.str "7")))) =
      (.answer (.error (.conflict "ConfigMap" "default/a" 7 1)),
        configStore.run [createConfig "a"]) := by
  have hp : (versionedPatch (.str "7")).AsksFor "7" := ⟨_, rfl, rfl, rfl⟩
  have h := ((requested_version configCatalog ⟨2, 1000, 2⟩ [createConfig "a"] rfl hp).2.2
    "v1/ConfigMap" .all ⟨0, ⟨2024, 1, 1, 0, 0, 0, 0⟩, "uid", "suffix"⟩ ⟨some "default", "a"⟩ none).2
  exact h 0 _ _ none rfl rfl rfl rfl (by decide) (by decide)

/-- **A number is passed over.** The config map is at the first version, the document gives the
seventh, as a number, and the patch is carried out. -/
theorem number_passed_over :
    ∃ o, ((configStore.run [createConfig "a"]).act (configCall
        (.patch ⟨some "default", "a"⟩ none (versionedPatch (Json.int 7))))).1 =
          .answer (.ok (.object o)) ∧
      o.metadata.resourceVersion = some "2" ∧
      o.data = [("data", .obj [("k", .str "v")])] :=
  ⟨_, rfl, rfl, rfl⟩

end Store

end ControlPlane
