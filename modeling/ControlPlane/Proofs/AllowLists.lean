import ControlPlane.Proofs.Restriction

/-!
# Views with and without a restriction to namespaces

Two runs in which the same calls are made, but with other restrictions to namespaces where the kind
has no namespaces, give the same answers and end with the same objects. Every consumer of a watch
gets the same items. The exception are objects that name an empty namespace: a restriction that does
not list it shuts them out.

* `Object.Spared`: no restriction concerns the object.
* `Store.lifted`: the store, its watches of kinds without namespaces having no restriction.
* `Store.act_lifted`: a call does the same with and without the restrictions.
* `Store.allow_list_without_effect`: what holds of scopes, and of any two runs.
* `Store.shut_out`: an object with an empty namespace.
-/

namespace ControlPlane

variable {d : Definition} {blank : Bool} {o o' : Object} {x : Scope}

/-! ## Objects that no restriction concerns -/

/-- The object is in its place if its kind has no namespaces: it has none, or an empty one, which
occurs only if it may (`blank`). -/
structure Object.Spared (blank : Bool) (d : Definition) (o : Object) : Prop where
  ns_cases : d.kind.namespaced = false → o.metadata.ns = none ∨ o.metadata.ns = some ""
  blank_of : o.metadata.ns = some "" → blank = true

theorem Object.Spared.congr (h : o.Spared blank d) (hns : o'.metadata.ns = o.metadata.ns) :
    o'.Spared blank d := ⟨hns ▸ h.ns_cases, hns ▸ h.blank_of⟩

theorem Object.spared_of_key {key : Key} (hkey : d.key o = .ok key)
    (hblank : o.metadata.ns = some "" → blank = true) : o.Spared blank d :=
  ⟨fun hd => d.ns_of_key hd hkey, hblank⟩

namespace Scope

/-- The scope without its restriction, if the kind has no namespaces. A restriction that would shut
out an object that may occur stays. -/
def lifted (d : Definition) (blank : Bool) (x : Scope) : Scope :=
  if d.kind.namespaced || (blank && !x.allows (some "")) then x else x.everywhere

theorem lifted_cases (d : Definition) (blank : Bool) (x : Scope) :
    x.lifted d blank = x ∨ (x.lifted d blank = x.everywhere ∧
      ∀ o : Object, o.Spared blank d → x.allows o.metadata.ns = true) := by
  unfold lifted
  by_cases h : (d.kind.namespaced || (blank && !x.allows (some ""))) = true
  · exact Or.inl (if_pos h)
  · refine Or.inr ⟨if_neg h, fun o ho => ?_⟩
    simp only [Bool.or_eq_true, Bool.and_eq_true, Bool.not_eq_true', not_or, not_and,
      Bool.not_eq_true, Bool.not_eq_false] at h
    rcases ho.ns_cases h.1 with hns | hns
    · rw [hns, x.allows_none]
    · rw [hns]
      exact h.2 (ho.blank_of hns)

theorem contains_lifted (ho : o.Spared blank d) (x : Scope) :
    (x.lifted d blank).contains o = x.contains o := by
  rcases lifted_cases d blank x with h | ⟨h, hallows⟩
  · rw [h]
  · rw [h, contains_everywhere (hallows o ho)]

theorem enroll_lifted (ho : o.Spared blank d) (x : Scope) (kind : String) :
    (x.lifted d blank).enroll kind o = x.enroll kind o := by
  rcases lifted_cases d blank x with h | ⟨h, hallows⟩
  · rw [h]
  · rw [h, enroll_everywhere (hallows o ho)]

end Scope

/-! ## Watches -/

namespace Selection

/-- The selection without its restriction. -/
def lifted (d : Definition) (blank : Bool) (x : Selection) : Selection :=
  { x with scope := x.scope.lifted d blank }

theorem selects_lifted (ho : o.Spared blank d) (x : Selection) :
    (x.lifted d blank).selects d o = x.selects d o := by
  rw [selects, selects, lifted, Scope.contains_lifted ho]

theorem event?_lifted {change : Change} (hc : change.Shows (Object.Spared blank d))
    (x : Selection) (version : Version) :
    (x.lifted d blank).event? d version change = x.event? d version change := by
  cases change with
  | created new => rw [event?_created, event?_created, selects_lifted hc]
  | updated old new =>
    rw [event?_updated, event?_updated, selects_lifted hc.1, selects_lifted hc.2]
  | deleted tombstone => rw [event?_deleted, event?_deleted, selects_lifted hc]

end Selection

namespace Watch

/-- The watch without its restriction. -/
def lifted (d : Definition) (blank : Bool) (w : Watch) : Watch :=
  { w with selection := w.selection.lifted d blank }

variable (w : Watch) (d : Definition) (blank : Bool)

theorem lifted_close (reason : Option EndReason) :
    (w.lifted d blank).close reason = (w.close reason).lifted d blank :=
  w.relabel_close (fun id => id) (·.lifted d blank) reason

theorem lifted_poll (now : Nat) :
    (w.lifted d blank).poll now = ((w.poll now).1, (w.poll now).2.lifted d blank) :=
  w.relabel_poll (fun id => id) (·.lifted d blank) now

theorem lifted_receive {change : Change} (hc : change.Shows (Object.Spared blank d))
    (capacity now : Nat) (version : Version) :
    (w.lifted d blank).receive d capacity now version change =
      ((w.receive d capacity now version change).1.lifted d blank,
        (w.receive d capacity now version change).2) :=
  w.relabel_receive (fun id => id) (·.lifted d blank) (w.selection.event?_lifted hc version)
    capacity now

end Watch

/-! ## Decisions -/

namespace Table

variable {t : Table}

theorem spared_named {key : Key} {suffix : String}
    (hkey : t.definition.key ((o.typedAs t.definition).named suffix) = .ok key)
    (ho : o.metadata.ns = some "" → blank = true) :
    ((o.typedAs t.definition).named suffix).Spared blank t.definition :=
  Object.spared_of_key hkey (by rwa [Object.ns_named])

theorem spared_composed {key : Key} {current : Object}
    (hkey : t.definition.key (o.typedAs t.definition) = .ok key)
    (ho : o.metadata.ns = some "" → blank = true) (hcurrent : current.Spared blank t.definition)
    (subresource : Option Subresource) :
    (t.composed subresource current (o.typedAs t.definition)).Spared blank t.definition := by
  have hown : (o.typedAs t.definition).Spared blank t.definition := Object.spared_of_key hkey ho
  cases subresource with
  | none =>
    rw [composed]
    split
    · exact hown.congr rfl
    · exact hown
  | some part =>
    cases part
    exact hcurrent.congr rfl

theorem spared_of_creation {key : Key} {suffix : String}
    (ho : o.metadata.ns = some "" → blank = true)
    (h : t.creation x suffix o = .ok (key, o')) : o'.Spared blank t.definition := by
  obtain ⟨-, hkey, -, rfl, -⟩ := creation_eq_ok_iff.mp h
  exact (spared_named hkey ho).congr (x.ns_mark _)

theorem spared_of_revision {key : Key} {r : Record} {expected : Option Version}
    {subresource : Option Subresource} (ho : o.metadata.ns = some "" → blank = true)
    (hr : r.object.Spared blank t.definition)
    (h : t.revision x o expected subresource = .ok (key, r, o')) :
    o'.Spared blank t.definition := by
  obtain ⟨-, hkey, -, -, -, -, -, rfl⟩ := revision_eq_ok_iff.mp h
  exact (spared_composed hkey ho hr subresource).congr (x.ns_mark _)

/-- What a creation decides does not depend on the restriction. -/
theorem creation_lifted (ho : o.metadata.ns = some "" → blank = true) (x : Scope)
    (suffix : String) :
    t.creation (x.lifted t.definition blank) suffix o = t.creation x suffix o := by
  refine bind_congr_ok fun o₁ haccept => bind_congr_ok fun key hkey => ?_
  obtain ⟨-, rfl⟩ := accept_eq_ok_iff.mp haccept
  rw [Scope.enroll_lifted (spared_named hkey ho)]

section Records

variable (hall : AllHold (Object.Spared blank t.definition) t.records)

include hall

theorem record_lifted (x : Scope) (key : Key) :
    t.record (x.lifted t.definition blank) key = t.record x key := by
  have hvisible : t.visible? (x.lifted t.definition blank) key = t.visible? x key := by
    rw [visible?, visible?]
    cases hr : SortedMap.get? t.records key with
    | none => rfl
    | some r => simp only [Option.filter, Scope.contains_lifted (hall key r hr)]
  rw [record, record, hvisible]

/-- Nor does what an update decides. -/
theorem revision_lifted (ho : o.metadata.ns = some "" → blank = true) (x : Scope)
    (expected : Option Version) (subresource : Option Subresource) :
    t.revision (x.lifted t.definition blank) o expected subresource =
      t.revision x o expected subresource := by
  refine bind_congr_ok fun o₁ haccept => bind_congr_ok fun key hkey => bind_congr_ok fun _ _ =>
    bind_congr_ok fun _ _ => ?_
  rw [record_lifted hall]
  refine bind_congr_ok fun r hr => bind_congr_ok fun _ _ => ?_
  obtain ⟨-, rfl⟩ := accept_eq_ok_iff.mp haccept
  have hcomposed := spared_composed hkey ho (hall key r (record_eq_ok_iff.mp hr).1) subresource
  rw [Scope.enroll_lifted hcomposed]

theorem removal_lifted (x : Scope) (key : Key) (precondition : Option Version) :
    t.removal (x.lifted t.definition blank) key precondition = t.removal x key precondition := by
  rw [removal, removal, record_lifted hall]

theorem select_lifted (hsorted : SortedMap.Sorted t.records) (criteria : Criteria) (x : Scope) :
    t.select ⟨criteria, x.lifted t.definition blank⟩ = t.select ⟨criteria, x⟩ :=
  List.filter_congr fun e he => Selection.selects_lifted
    (hall e.1 e.2 (SortedMap.get?_of_mem hsorted he)) ⟨criteria, x⟩

theorem removals_lifted (hsorted : SortedMap.Sorted t.records) (criteria : Criteria) (x : Scope) :
    t.removals (x.lifted t.definition blank) criteria = t.removals x criteria := by
  rw [removals, removals, select_lifted hall hsorted]

/-- What a watch begins with does not depend on the restriction. -/
theorem opening_lifted (hsorted : SortedMap.Sorted t.records)
    (hhistory : ∀ e ∈ t.history.changes, e.2.Shows (Object.Spared blank t.definition))
    (criteria : Criteria) (x : Scope) (since : Option Version) :
    t.opening ⟨criteria, x.lifted t.definition blank⟩ since = t.opening ⟨criteria, x⟩ since := by
  have hinitial : t.initialEvents ⟨criteria, x.lifted t.definition blank⟩ since =
      t.initialEvents ⟨criteria, x⟩ since := by
    cases since with
    | none => rw [initialEvents, initialEvents, snapshot, snapshot, select_lifted hall hsorted]
    | some since =>
      have hreplay : t.history.replay? t.definition ⟨criteria, x.lifted t.definition blank⟩ since =
          t.history.replay? t.definition ⟨criteria, x⟩ since := by
        rw [History.replay?, History.replay?]
        refine congrArg (ite _ none ∘ some) (List.filterMap_congr fun e he => ?_)
        exact Selection.event?_lifted (hhistory e (List.mem_filter.mp he).1) ⟨criteria, x⟩ e.1
      rw [initialEvents, initialEvents, hreplay]
  rw [opening, opening, hinitial]

end Records

/-- The table, its watches having no restriction if the kind has no namespaces. -/
def lifted (blank : Bool) (t : Table) : Table :=
  { t with watches := t.watches.map (·.lifted t.definition blank) }

theorem watch?_lifted (id : Nat) :
    (t.lifted blank).watch? id = (t.watch? id).map (·.lifted t.definition blank) := by
  rw [watch?, watch?, lifted, List.find?_map]
  rfl

theorem setWatch_lifted (w : Watch) :
    (t.lifted blank).setWatch (w.lifted t.definition blank) = (t.setWatch w).lifted blank := by
  simp only [setWatch, lifted, List.map_map]
  refine congrArg (fun watches => { t with watches := watches }) (List.map_congr_left fun v _ => ?_)
  exact (apply_ite (Watch.lifted t.definition blank) (v.id = w.id) w v).symm

end Table

/-! ## One table in focus -/

namespace Focus

/-- The table in focus, without the restrictions. -/
def lifted (blank : Bool) (f : Focus) : Focus := { f with table := f.table.lifted blank }

variable {f : Focus}

/-- A commit reaches the watches in the same way with and without the restrictions. -/
theorem commit_lifted {change : Change}
    (hc : change.Shows (Object.Spared blank f.table.definition)) (now : Nat) (verb : Verb)
    (records : SortedMap Key Record) :
    (f.lifted blank).commit now verb records change =
      (f.commit now verb records change).lifted blank := by
  have hbroadcast : (f.lifted blank).broadcast now f.version.next change =
      (f.broadcast now f.version.next change).map fun e =>
        (e.1.lifted f.table.definition blank, e.2) := by
    rw [broadcast_eq, broadcast_eq, List.map_map, lifted, Table.lifted, List.map_map]
    exact List.map_congr_left fun w _ => w.lifted_receive _ _ hc _ _ _
  have hversion : (f.lifted blank).version = f.version := rfl
  simp only [commit, hversion, hbroadcast, List.countP_map, List.map_map]
  rw [lifted, Table.lifted, lifted, Table.lifted, List.map_map]
  rfl

section Operations

variable (hall : AllHold (Object.Spared blank f.table.definition) f.table.records) {m : Moment}

theorem create_lifted (ho : o.metadata.ns = some "" → blank = true) (x : Scope) :
    (f.lifted blank).create (x.lifted f.table.definition blank) m o =
      ((f.create x m o).1, (f.create x m o).2.lifted blank) := by
  have hcreation : (f.lifted blank).table.creation (x.lifted f.table.definition blank) m.suffix o =
      f.table.creation x m.suffix o := f.table.creation_lifted ho x m.suffix
  simp only [create, hcreation]
  cases hd : f.table.creation x m.suffix o with
  | error e => rfl
  | ok p =>
    obtain ⟨key, o'⟩ := p
    have hnew : Change.Shows (Object.Spared blank f.table.definition)
        (.created (o'.born m f.version.next)) := (Table.spared_of_creation ho hd).congr rfl
    exact congrArg (Prod.mk _) (commit_lifted hnew _ _ _)

include hall

theorem replace_lifted (ho : o.metadata.ns = some "" → blank = true) (x : Scope) (verb : Verb)
    (expected : Option Version) (subresource : Option Subresource) :
    (f.lifted blank).replace (x.lifted f.table.definition blank) m verb o expected subresource =
      ((f.replace x m verb o expected subresource).1,
        (f.replace x m verb o expected subresource).2.lifted blank) := by
  have hrevision : (f.lifted blank).table.revision (x.lifted f.table.definition blank) o expected
      subresource = f.table.revision x o expected subresource :=
    Table.revision_lifted hall ho x expected subresource
  simp only [replace, hrevision]
  cases hd : f.table.revision x o expected subresource with
  | error e => rfl
  | ok p =>
    obtain ⟨key, r, next⟩ := p
    have hcurrent := hall key r (Table.revision_eq_ok_iff.mp hd).2.2.2.2.1
    have hnew : Change.Shows (Object.Spared blank f.table.definition)
        (.updated r.object (next.succeeding r.object f.version.next)) :=
      ⟨hcurrent, (Table.spared_of_revision ho hcurrent hd).congr rfl⟩
    exact congrArg (Prod.mk _) (commit_lifted hnew _ _ _)

theorem patch_lifted
    (hclear : ∀ key r, SortedMap.get? f.table.records key = some r → r.object.Clear) (x : Scope)
    (key : Key) (subresource : Option Subresource) (p : Patch) :
    (f.lifted blank).patch (x.lifted f.table.definition blank) m key subresource p =
      ((f.patch x m key subresource p).1, (f.patch x m key subresource p).2.lifted blank) := by
  have hpatched : (f.lifted blank).patched (x.lifted f.table.definition blank) m key subresource p =
      f.patched x m key subresource p :=
    congrArg (· >>= _) (Table.record_lifted hall x key)
  simp only [patch, hpatched]
  cases hd : f.patched x m key subresource p with
  | error e => rfl
  | ok q =>
    obtain ⟨o, read⟩ := q
    obtain ⟨r, hr, -, ho⟩ := patched_eq_ok hd
    have hget := (Table.record_eq_ok_iff.mp hr).1
    refine replace_lifted hall (fun hns => (hall key r hget).blank_of ?_) x .patch (some read)
      subresource
    rw [← Patch.ns_applyTo (hclear key r hget) ho, hns]

theorem remove_lifted {key : Key} {r : Record} (hr : SortedMap.get? f.table.records key = some r)
    (now : Nat) :
    (f.lifted blank).remove now key r =
      ((f.remove now key r).1, (f.remove now key r).2.lifted blank) := by
  have hnew : Change.Shows (Object.Spared blank f.table.definition)
      (.deleted (r.object.stamped f.version.next)) := (hall key r hr).congr rfl
  exact congrArg (Prod.mk _) (commit_lifted hnew _ _ _)

theorem delete_lifted (x : Scope) (key : Key) (precondition : Option Version) :
    (f.lifted blank).delete (x.lifted f.table.definition blank) m key precondition =
      ((f.delete x m key precondition).1, (f.delete x m key precondition).2.lifted blank) := by
  have hremoval : (f.lifted blank).table.removal (x.lifted f.table.definition blank) key
      precondition = f.table.removal x key precondition :=
    Table.removal_lifted hall x key precondition
  simp only [delete, hremoval]
  cases hd : f.table.removal x key precondition with
  | error e => rfl
  | ok r =>
    obtain ⟨-, hget, -⟩ := Table.removal_eq_ok_iff.mp hd
    simp only [remove_lifted hall hget]

omit hall in
theorem removeAll_lifted (now : Nat) (keys : List Key) :
    ∀ f : Focus, AllHold (Object.Spared blank f.table.definition) f.table.records →
      (f.lifted blank).removeAll now keys =
        ((f.removeAll now keys).1, (f.removeAll now keys).2.lifted blank) := by
  induction keys with
  | nil => exact fun f _ => rfl
  | cons key keys ih =>
    intro f hall
    have hget : SortedMap.get? (f.lifted blank).table.records key =
        SortedMap.get? f.table.records key := rfl
    simp only [removeAll, hget]
    cases hr : SortedMap.get? f.table.records key with
    | none => exact ih f hall
    | some r =>
      have hrest : AllHold (Object.Spared blank (f.remove now key r).2.table.definition)
          (f.remove now key r).2.table.records := by
        intro key' r' hr'
        replace hr' : SortedMap.get? (SortedMap.erase f.table.records key) key' = some r' := hr'
        by_cases hkey : key' = key
        · rw [hkey, SortedMap.get?_erase_self] at hr'
          cases hr'
        · rw [SortedMap.get?_erase_of_ne _ hkey] at hr'
          exact hall key' r' hr'
      simp only [remove_lifted hall hr, ih _ hrest]

theorem deleteCollection_lifted (hsorted : SortedMap.Sorted f.table.records) (x : Scope)
    (criteria : Criteria) :
    (f.lifted blank).deleteCollection (x.lifted f.table.definition blank) m criteria =
      ((f.deleteCollection x m criteria).1, (f.deleteCollection x m criteria).2.lifted blank) := by
  have hremovals : (f.lifted blank).table.removals (x.lifted f.table.definition blank) criteria =
      f.table.removals x criteria := Table.removals_lifted hall hsorted criteria x
  simp only [deleteCollection, hremovals]
  cases f.table.removals x criteria with
  | error e => rfl
  | ok keys => simp only [removeAll_lifted m.now keys f hall]

theorem watch_lifted (hsorted : SortedMap.Sorted f.table.records)
    (hhistory : ∀ e ∈ f.table.history.changes, e.2.Shows (Object.Spared blank f.table.definition))
    (x : Scope) (criteria : Criteria) (since : Option Version) (timeout : Option Nat) :
    (f.lifted blank).watch (x.lifted f.table.definition blank) m criteria since timeout =
      ((f.watch x m criteria since timeout).1,
        (f.watch x m criteria since timeout).2.lifted blank) := by
  have hopening : (f.lifted blank).table.opening ⟨criteria, x.lifted f.table.definition blank⟩
      since = f.table.opening ⟨criteria, x⟩ since :=
    Table.opening_lifted hall hsorted hhistory criteria x since
  simp only [watch, hopening]
  cases f.table.opening ⟨criteria, x⟩ since with
  | error e => rfl
  | ok events =>
    simp only [lifted, Table.lifted, List.map_append, List.map_cons, List.map_nil]
    rfl

end Operations

/-! ### What consumers do -/

theorem settle_lifted (before after : Watch) :
    (f.lifted blank).settle (before.lifted f.table.definition blank)
        (after.lifted f.table.definition blank) = (f.settle before after).lifted blank := by
  have hset : (f.lifted blank).table.setWatch (after.lifted f.table.definition blank) =
      (f.table.setWatch after).lifted blank := Table.setWatch_lifted after
  rw [settle, hset]
  rfl

theorem poll_lifted (now id : Nat) :
    (f.lifted blank).poll now id = ((f.poll now id).1, (f.poll now id).2.lifted blank) := by
  have hwatch : (f.lifted blank).table.watch? id =
      (f.table.watch? id).map (·.lifted f.table.definition blank) := Table.watch?_lifted id
  simp only [poll, hwatch]
  cases f.table.watch? id with
  | none => rfl
  | some w => simp only [Option.map_some, Watch.lifted_poll, settle_lifted]

theorem stopWatch_lifted (id : Nat) :
    (f.lifted blank).stopWatch id = (f.stopWatch id).lifted blank := by
  have hwatch : (f.lifted blank).table.watch? id =
      (f.table.watch? id).map (·.lifted f.table.definition blank) := Table.watch?_lifted id
  simp only [stopWatch, hwatch]
  cases f.table.watch? id with
  | none => rfl
  | some w => simp only [Option.map_some, Watch.lifted_close, settle_lifted]

theorem dropWatch_lifted (id : Nat) :
    (f.lifted blank).dropWatch id = (f.dropWatch id).lifted blank := by
  simp only [dropWatch, lifted, Table.lifted, List.filter_map]
  rfl

end Focus

/-! ## Objects in a store -/

/-- No restriction concerns the object, and its namespace stands in its place alone. -/
structure Object.AtEase (blank : Bool) (d : Definition) (o : Object) : Prop where
  spared : o.Spared blank d
  clear : o.Clear

/-- An object may be brought to a store: it is as if it was read from a document, and if it names an
empty namespace, that may occur. -/
structure Object.Bringable (blank : Bool) (o : Object) : Prop where
  clear : o.Clear
  blank_of : o.metadata.ns = some "" → blank = true

namespace Object

theorem AtEase.stamped (h : o.AtEase blank d) (v : Version) : (o.stamped v).AtEase blank d :=
  ⟨h.spared.congr rfl, h.clear.congr rfl rfl⟩

/-- **No restriction that is lifted concerns an object that is stored.** -/
theorem lasting_atEase (blank : Bool) :
    Object.Lasting (fun d o => o.AtEase blank d) (Bringable blank) fun _ => True where
  created {t x m o o' key} v ho _ h := by
    refine ⟨(Table.spared_of_creation ho.blank_of h).congr rfl, ?_⟩
    obtain ⟨-, -, -, rfl, -⟩ := Table.creation_eq_ok_iff.mp h
    refine ho.clear.congr ?_ ?_
    · exact (x.data_mark _).trans (data_named ..)
    · exact (x.rest_mark _).trans (rest_named ..)
  replaced {t x o next expected part key r} v ho hr h := by
    refine ⟨(Table.spared_of_revision ho.blank_of hr.spared h).congr rfl, ?_⟩
    obtain ⟨-, -, -, -, -, -, -, rfl⟩ := Table.revision_eq_ok_iff.mp h
    have htyped : (o.typedAs t.definition).Clear := ho.clear.congr rfl rfl
    exact (htyped.composed hr.clear t part).congr (x.data_mark _) (x.rest_mark _)
  patched {d current o p part wall} hcurrent h := by
    refine ⟨?_, fun hns => hcurrent.spared.blank_of ?_⟩
    · obtain ⟨strategic, document, happly⟩ := Patch.exists_applyDocument h
      obtain ⟨-, -, patched, -, hdecode⟩ := Patch.applyDocument_eq_ok_iff.mp happly
      exact clear_of_decode hdecode
    · rw [← Patch.ns_applyTo hcurrent.clear h, hns]

end Object

/-! ## One action -/

namespace Store

/-- The store, the watches of kinds without namespaces having no restriction. -/
def lifted (blank : Bool) (s : Store) : Store :=
  { s with tables := s.tables.map (·.lifted blank) }

/-- The definition of the kind to which a name leads. -/
def definition? (s : Store) (kind : String) : Option Definition :=
  (s.find kind).toOption.bind (s.definitions[·]?)

/-- A scope without its restriction, for a call by a name. -/
def liftedScope (blank : Bool) (s : Store) (kind : String) (x : Scope) : Scope :=
  match s.definition? kind with
  | some d => x.lifted d blank
  | none => x.everywhere

/-- The action, a call being made without the restriction. -/
def Action.lifted (blank : Bool) (s : Store) : Action → Action
  | .call kind x m w => .call kind (s.liftedScope blank kind x) m w
  | a => a

variable {s s' : Store} {blank : Bool} {log : List Commit} {i : Nat} {t : Table}

theorem definitions_lifted (blank : Bool) (s : Store) :
    (s.lifted blank).definitions = s.definitions := by
  rw [definitions, lifted, List.map_map]
  rfl

theorem find_lifted (blank : Bool) (s : Store) (kind : String) :
    (s.lifted blank).find kind = s.find kind := by
  have hcatalog : (s.lifted blank).catalog = s.catalog := rfl
  exact find_congr hcatalog (definitions_lifted blank s) kind

theorem position?_lifted (blank : Bool) (s : Store) (fullName : String) :
    (s.lifted blank).position? fullName = s.position? fullName :=
  position?_congr (definitions_lifted blank s) fullName

theorem getElem?_lifted (blank : Bool) (s : Store) (i : Nat) :
    (s.lifted blank).tables[i]? = s.tables[i]?.map (·.lifted blank) := List.getElem?_map

theorem absorb_lifted (s : Store) (i : Nat) (f : Focus) :
    (s.lifted blank).absorb i (f.lifted blank) = (s.absorb i f).lifted blank := by
  rw [absorb, lifted, lifted, absorb, List.map_set]
  rfl

theorem liftedScope_found {kind : String} (hfind : s.find kind = .ok i)
    (ht : s.tables[i]? = some t) (x : Scope) :
    s.liftedScope blank kind x = x.lifted t.definition blank := by
  have hd : s.definition? kind = some t.definition := by
    rw [definition?, hfind, definitions]
    simp [Except.toOption, ht]
  rw [liftedScope, hd]

/-- **A call does the same to a table with and without the restrictions.** -/
theorem Work.serve_lifted {f : Focus} (hsorted : SortedMap.Sorted f.table.records)
    (hrecords : AllHold (Object.AtEase blank f.table.definition) f.table.records)
    (hhistory : ∀ e ∈ f.table.history.changes, e.2.Shows (Object.Spared blank f.table.definition))
    {m : Moment} {w : Work} (hw : w.Brings (Object.Bringable blank) (fun _ => True) m) (x : Scope) :
    w.serve (x.lifted f.table.definition blank) m (f.lifted blank) =
      ((w.serve x m f).1, (w.serve x m f).2.lifted blank) := by
  have hall : AllHold (Object.Spared blank f.table.definition) f.table.records :=
    fun key r hr => (hrecords key r hr).spared
  cases w with
  | writeBack o read part =>
    simp only [serve, Focus.replace_lifted hall hw.blank_of]
  | request r =>
    cases r with
    | create o => simp only [serve, Store.serve, Focus.create_lifted hw.1.blank_of]
    | get key =>
      have hrecord : (f.lifted blank).get (x.lifted f.table.definition blank) key = f.get x key :=
        congrArg (·.map Record.object) (Table.record_lifted hall x key)
      simp only [serve, Store.serve, hrecord]
    | list criteria =>
      have hselect : (f.lifted blank).table.select ⟨criteria, x.lifted f.table.definition blank⟩ =
          f.table.select ⟨criteria, x⟩ := Table.select_lifted hall hsorted criteria x
      have hlist : (f.lifted blank).list (x.lifted f.table.definition blank) criteria =
          f.list x criteria := by
        rw [Focus.list, Focus.list, hselect]
        rfl
      simp only [serve, Store.serve, hlist]
    | watch criteria since timeout =>
      simp only [serve, Store.serve, Focus.watch_lifted hall hsorted hhistory]
      rfl
    | update o expected subresource =>
      have hdefinition : (f.lifted blank).table.definition = f.table.definition := rfl
      simp only [serve, Store.serve, hdefinition]
      cases subresource.mapM f.table.definition.subresource with
      | error e => rfl
      | ok part =>
        have hw : o.metadata.ns = some "" → blank = true := Object.Bringable.blank_of hw
        simp only [Focus.update, Focus.replace_lifted hall hw]
    | patch key subresource p =>
      have hdefinition : (f.lifted blank).table.definition = f.table.definition := rfl
      simp only [serve, Store.serve, hdefinition]
      cases subresource.mapM f.table.definition.subresource with
      | error e => rfl
      | ok part =>
        simp only [Focus.patch_lifted hall fun key r hr => (hrecords key r hr).clear]
    | delete key precondition => simp only [serve, Store.serve, Focus.delete_lifted hall]
    | deleteCollection criteria =>
      simp only [serve, Store.serve, Focus.deleteCollection_lifted hall hsorted]

theorem onWatch_lifted {α : Type} (s : Store) (blank : Bool) (handle : WatchHandle)
    (operation : Focus → α × Focus) (h : ∀ f : Focus, operation (f.lifted blank) =
      ((operation f).1, (operation f).2.lifted blank)) :
    (s.lifted blank).onWatch handle operation =
      ((s.onWatch handle operation).1, (s.onWatch handle operation).2.lifted blank) := by
  simp only [onWatch, position?_lifted]
  cases s.position? handle.kind with
  | none => rfl
  | some i =>
    simp only [getElem?_lifted]
    cases s.tables[i]? with
    | none => rfl
    | some t =>
      have hfocus : (s.lifted blank).focus (t.lifted blank) = (s.focus t).lifted blank := rfl
      simp only [Option.map_some, hfocus, h, absorb_lifted]

theorem shutdown_lifted : (s.lifted blank).shutdown = s.shutdown.lifted blank := by
  have hstop (t : Table) : (t.lifted blank).stop = t.stop.lifted blank := by
    simp only [Table.stop, Table.lifted, List.map_map]
    refine congrArg (fun watches => { t with stopped := true, watches := watches })
      (List.map_congr_left fun w _ => Watch.lifted_close w _ _ _)
  have hlive (t : Table) : (t.lifted blank).liveWatches =
      t.liveWatches.map (·.lifted t.definition blank) := by
    rw [Table.liveWatches, Table.lifted, List.filter_map]
    rfl
  have htables : (s.tables.map (·.lifted blank)).map Table.stop =
      (s.tables.map Table.stop).map (·.lifted blank) := by
    rw [List.map_map, List.map_map]
    exact List.map_congr_left fun t _ => hstop t
  simp only [shutdown, lifted, htables, List.foldl_map, hlive, List.map_map]
  rfl

/-- **An action does the same to a store with and without the restrictions.** -/
theorem act_lifted (hs : s.Follows log) (hholds : s.Holds fun d o => o.AtEase blank d)
    {a : Action} (ha : a.Brings (Object.Bringable blank) fun _ => True) :
    (s.lifted blank).act (a.lifted blank s) = ((s.act a).1, (s.act a).2.lifted blank) := by
  cases a with
  | call kind x m w =>
    simp only [Action.lifted, act, onKind, find_lifted]
    cases hfind : s.find kind with
    | error e => rfl
    | ok i =>
      simp only [getElem?_lifted]
      cases ht : s.tables[i]? with
      | none => rfl
      | some t =>
        have hfocus : (s.lifted blank).focus (t.lifted blank) = (s.focus t).lifted blank := rfl
        have hserve := Work.serve_lifted (f := s.focus t) (m := m) (hs.tables i t ht).sorted
          (hholds.records i t ht)
          (fun e he => (hholds.history i t ht e he).imp fun _ => Object.AtEase.spared) ha x
        replace hserve : w.serve (x.lifted t.definition blank) m ((s.focus t).lifted blank) =
          ((w.serve x m (s.focus t)).1, (w.serve x m (s.focus t)).2.lifted blank) := hserve
        simp only [Option.map_some, hfocus, liftedScope_found hfind ht, hserve, absorb_lifted]
  | poll now handle =>
    have hpoll := s.onWatch_lifted blank handle (·.poll now handle.id) fun f =>
      f.poll_lifted now handle.id
    simp only [Action.lifted, act, poll, hpoll]
  | stopWatch handle =>
    have hstop := s.onWatch_lifted blank handle (fun f => ((), f.stopWatch handle.id)) fun f =>
      congrArg (Prod.mk ()) (f.stopWatch_lifted handle.id)
    simp only [Action.lifted, act, stopWatch, hstop]
  | dropWatch handle =>
    have hdrop := s.onWatch_lifted blank handle (fun f => ((), f.dropWatch handle.id)) fun f =>
      congrArg (Prod.mk ()) (f.dropWatch_lifted handle.id)
    simp only [Action.lifted, act, dropWatch, hdrop]
  | shutdown => exact congrArg (Prod.mk _) shutdown_lifted

/-! ## Two runs -/

/-- The actions are the same, but a call by a name that leads to no namespaced kind may have another
restriction. If objects with an empty namespace may occur, both restrictions allow them. -/
inductive SameButRestriction (s : Store) (blank : Bool) : Action → Action → Prop
  | same (a : Action) : SameButRestriction s blank a a
  | call {kind : String} {x x' : Scope} (m : Moment) (w : Work) :
    (∀ d, s.definition? kind = some d → d.kind.namespaced = false) →
    x'.everywhere = x.everywhere →
    (blank = true → x.allows (some "") = true ∧ x'.allows (some "") = true) →
    SameButRestriction s blank (.call kind x m w) (.call kind x' m w)

theorem SameButRestriction.brings {s : Store} {blank : Bool} {a a' : Action}
    (h : s.SameButRestriction blank a a') {Brought : Object → Prop} {Timely : Moment → Prop}
    (ha : a.Brings Brought Timely) : a'.Brings Brought Timely := by
  cases h with
  | same => exact ha
  | call m w hd hx hblank => exact ha

theorem definition?_congr (h : s.SameKinds s') (kind : String) :
    s'.definition? kind = s.definition? kind := by
  rw [definition?, definition?, h.find_eq, h.definitions_eq]

/-- Actions that are the same but for a restriction are the same without it. -/
theorem SameButRestriction.lifted_eq {s₀ : Store} {blank : Bool} {a a' : Action}
    (h : s₀.SameButRestriction blank a a') (hs : s₀.SameKinds s) (hs' : s₀.SameKinds s') :
    a'.lifted blank s' = a.lifted blank s := by
  have hscope (kind : String) (x : Scope) :
      s'.liftedScope blank kind x = s.liftedScope blank kind x := by
    rw [liftedScope, liftedScope, definition?_congr hs', definition?_congr hs]
  cases h with
  | same a =>
    cases a with
    | call kind x m w => simp only [Action.lifted, hscope]
    | _ => rfl
  | @call kind x x' m w hd hx hblank =>
    have hfree {x : Scope} (hx : blank = true → x.allows (some "") = true) :
        s.liftedScope blank kind x = x.everywhere := by
      rw [liftedScope, definition?_congr hs]
      cases hkind : s₀.definition? kind with
      | none => rfl
      | some d =>
        refine if_neg ?_
        rw [hd d hkind]
        cases blank with
        | false => exact Bool.false_ne_true
        | true => simp [hx rfl]
    simp only [Action.lifted, hscope, hfree fun h => (hblank h).1, hfree fun h => (hblank h).2, hx]

theorem bare_lifted (s : Store) (blank : Bool) : (s.lifted blank).bare = s.bare := by
  rw [bare, lifted, List.map_map]
  rfl

theorem holds_atEase (catalog : Catalog) (limits : WatchLimits) {blank : Bool}
    {actions : List Action}
    (h : ∀ a ∈ actions, a.Brings (Object.Bringable blank) fun _ => True) :
    ((empty catalog limits).run actions).Holds fun d o => o.AtEase blank d :=
  holds_run (Object.lasting_atEase blank) (fun _ _ v ho => ho.stamped v) catalog limits h

/-- **Two runs that differ in restrictions give the same outcomes.** -/
theorem outcomes_lifted (catalog : Catalog) (limits : WatchLimits) (blank : Bool)
    {actions actions' : List Action}
    (hsame : List.Forall₂ ((empty catalog limits).SameButRestriction blank) actions actions')
    (hactions : ∀ a ∈ actions, a.Brings (Object.Bringable blank) fun _ => True)
    {before before' : List Action}
    (hbefore : ∀ a ∈ before, a.Brings (Object.Bringable blank) fun _ => True)
    (hbefore' : ∀ a ∈ before', a.Brings (Object.Bringable blank) fun _ => True)
    (h : ((empty catalog limits).run before').lifted blank =
      ((empty catalog limits).run before).lifted blank) :
    ((empty catalog limits).run before').outcomes actions' =
        ((empty catalog limits).run before).outcomes actions ∧
      (((empty catalog limits).run before').run actions').lifted blank =
        (((empty catalog limits).run before).run actions).lifted blank := by
  induction hsame generalizing before before' with
  | nil => exact ⟨rfl, h⟩
  | @cons a a' actions actions' hfirst _ ih =>
    obtain ⟨ha, hactions⟩ := List.forall_mem_cons.mp hactions
    have hact := act_lifted (follows_reached catalog limits before)
      (holds_atEase catalog limits hbefore) ha
    have hact' := act_lifted (follows_reached catalog limits before')
      (holds_atEase catalog limits hbefore') (hfirst.brings ha)
    rw [h, hfirst.lifted_eq (sameKinds_run (follows_empty catalog limits) before)
      (sameKinds_run (follows_empty catalog limits) before'), hact] at hact'
    obtain ⟨houtcome, hafter⟩ := Prod.mk.inj hact'
    have hconcat {before : List Action} {a : Action}
        (hbefore : ∀ a ∈ before, a.Brings (Object.Bringable blank) fun _ => True)
        (ha : a.Brings (Object.Bringable blank) fun _ => True) :
        ∀ a' ∈ before ++ [a], a'.Brings (Object.Bringable blank) fun _ => True := by
      intro a' ha'
      rcases List.mem_append.mp ha' with ha' | ha'
      · exact hbefore a' ha'
      · exact List.mem_singleton.mp ha' ▸ ha
    have hrest := ih hactions (hconcat hbefore ha) (hconcat hbefore' (hfirst.brings ha)) (by
      rw [run_append, run_append]
      exact hafter.symm)
    rw [run_append, run_append] at hrest
    exact ⟨congrArg₂ List.cons houtcome.symm hrest.1, hrest.2⟩

/-- **Restrictions to namespaces make no difference to kinds without namespaces.** If an object is
accepted by such a kind, it lies in the restricted scope exactly if it lies in the unrestricted one,
and a write makes the same of it; only an empty namespace that is not listed shuts it out. In every
run the calls for such kinds may be made through the restricted scope or the unrestricted one: if no
object that names an empty namespace is brought, or the restrictions list it, all outcomes are the
same, and so are the objects, their histories, the versions and the counters in the end. -/
theorem allow_list_without_effect (d : Definition) (o : Object) (label value : String)
    (namespaces : List String) (catalog : Catalog) (limits : WatchLimits) (blank : Bool)
    (actions actions' : List Action) :
    (d.kind.namespaced = false → (∃ key, d.key o = .ok key) →
      (((Scope.byLabel label value).within namespaces).contains o = true ↔
        (Scope.byLabel label value).contains o = true ∧
          (o.metadata.ns ≠ some "" ∨ "" ∈ namespaces)) ∧
      ∀ kind, ((Scope.byLabel label value).within namespaces).enroll kind o =
        ((Scope.byLabel label value).enroll kind o).bind fun o' =>
          if o.metadata.ns ≠ some "" ∨ "" ∈ namespaces then .ok o'
          else .error (.forbidden (.otherNamespace "" value))) ∧
    (List.Forall₂ ((empty catalog limits).SameButRestriction blank) actions actions' →
      (∀ a ∈ actions, a.Brings (Object.Bringable blank) fun _ => True) →
      (empty catalog limits).outcomes actions' = (empty catalog limits).outcomes actions ∧
        ((empty catalog limits).run actions').bare = ((empty catalog limits).run actions).bare ∧
        ((empty catalog limits).run actions').counters =
          ((empty catalog limits).run actions).counters) := by
  refine ⟨fun hd ⟨key, hkey⟩ => ?_, fun hsame hactions => ?_⟩
  · have hallows := Partition.allows_iff_listed (d.ns_of_key hd hkey) label value namespaces
    refine ⟨?_, fun kind => ?_⟩
    · rw [Scope.contains_eq_everywhere, Bool.and_eq_true]
      exact and_congr_right' hallows
    · refine (Scope.enroll_partition _ kind o).trans
        (congrArg (Except.bind _) (funext fun o' => ?_))
      by_cases h : o.metadata.ns ≠ some "" ∨ "" ∈ namespaces
      · rw [if_pos h, if_pos (hallows.mpr h)]
      · obtain ⟨hns, -⟩ := not_or.mp h
        rw [if_neg h, if_neg (mt hallows.mp h), not_ne_iff.mp hns]
        rfl
  · obtain ⟨houtcomes, hlifted⟩ := outcomes_lifted catalog limits blank hsame hactions
      (List.forall_mem_nil _) (List.forall_mem_nil _) rfl
    refine ⟨houtcomes, ?_, ?_⟩
    · have hbare := congrArg Store.bare hlifted
      rwa [bare_lifted, bare_lifted] at hbare
    · have hcounters := congrArg Store.counters hlifted
      exact hcounters

/-! ### Nodes through a restricted view -/

/-- The view of a name, restricted to some namespaces or not. -/
def nodeView (namespaces : Option (List String)) : View := .derived .standard "a" namespaces

/-- A node that is in a namespace or in none. -/
def nodeIn (ns : Option String) : Object :=
  ⟨none, { Metadata.empty with name := some "n", ns := ns }, []⟩

/-- A call for nodes through the view. -/
def nodeCallAs (namespaces : Option (List String)) (r : Request) : Action :=
  .call "v1/Node" (nodeView namespaces).scope ⟨0, ⟨2024, 1, 1, 0, 0, 0, 0⟩, "uid", "suffix"⟩
    (.request r)

/-- A node is created, watched, and deleted. -/
def nodeActions (namespaces : Option (List String)) : List Action :=
  [nodeCallAs namespaces (.create (nodeIn none)), nodeCallAs namespaces (.watch .all none none),
    nodeCallAs namespaces (.delete ⟨none, "n"⟩ none), .poll 1 ⟨"v1/Node", 0⟩,
    .poll 2 ⟨"v1/Node", 0⟩]

theorem allow_list_without_effect_nodes :
    (empty nodeCatalog ⟨2, 1000, 2⟩).outcomes (nodeActions (some ["x"])) =
        (empty nodeCatalog ⟨2, 1000, 2⟩).outcomes (nodeActions none) ∧
      ((Scope.byLabel "l" "v").within ["x"]).contains
        ((Scope.byLabel "l" "v").mark (nodeIn none)) = true := by
  obtain ⟨hobject, hruns⟩ := allow_list_without_effect (.ofKind Schema.node)
    ((Scope.byLabel "l" "v").mark (nodeIn none)) "l" "v" ["x"] nodeCatalog ⟨2, 1000, 2⟩ false
    (nodeActions none) (nodeActions (some ["x"]))
  have hcall (r : Request) : (empty nodeCatalog ⟨2, 1000, 2⟩).SameButRestriction false
      (nodeCallAs none r) (nodeCallAs (some ["x"]) r) := by
    refine .call _ _ (fun d hd => ?_) rfl nofun
    cases hd
    rfl
  refine ⟨(hruns ?_ ?_).1, ?_⟩
  · exact .cons (hcall _) (.cons (hcall _) (.cons (hcall _)
      (.cons (.same _) (.cons (.same _) .nil))))
  · intro a ha
    simp only [nodeActions, List.mem_cons, List.not_mem_nil, or_false] at ha
    rcases ha with rfl | rfl | rfl | rfl | rfl
    · exact ⟨⟨⟨rfl, rfl⟩, nofun⟩, trivial⟩
    all_goals trivial
  · exact (hobject rfl ⟨⟨none, "n"⟩, rfl⟩).1.mpr ⟨by decide, Or.inl nofun⟩

/-- **An object that is shut out.** The node names an empty namespace, which is none to its kind.
The restricted view refuses it, and the unrestricted one creates it. -/
theorem shut_out :
    (Definition.ofKind Schema.node).key (nodeIn (some "")) = .ok ⟨none, "n"⟩ ∧
      ((empty nodeCatalog ⟨2, 1000, 2⟩).act
          (nodeCallAs (some ["x"]) (.create (nodeIn (some ""))))).1 =
        .answer (.error (.forbidden (.otherNamespace "" "a"))) ∧
      ∃ o, ((empty nodeCatalog ⟨2, 1000, 2⟩).act
          (nodeCallAs none (.create (nodeIn (some ""))))).1 = .answer (.ok (.object o)) ∧
        (nodeView none).scope.contains o = true ∧
        (nodeView (some ["x"])).scope.contains o = false :=
  ⟨rfl, rfl, _, rfl, rfl, rfl⟩

end Store

end ControlPlane
