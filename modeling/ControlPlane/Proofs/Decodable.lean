import ControlPlane.Proofs.Clients
import ControlPlane.Proofs.Delivery
import ControlPlane.Proofs.Holdings
import ControlPlane.Proofs.Retention
import ControlPlane.Proofs.Uses
import ControlPlane.Proofs.Validity

/-!
# Whatever a store holds decodes

A store decodes what it is given and throws the result away: it keeps the object, and changes it
before it does. Still every object in a store decodes as its kind, and so does every object that a
store gives away. A typed client decodes what it gets once more, by a type of its own. If that is
the type of its table, then it never gets what it cannot read.

* `Object.lasting_sound`: creations and replacements store sound objects.
* `Error.Spares`, `Client.spares_carryOut`: what is asked without a document is never refused
  because a document does not decode.
* `Store.Decodes`, `Client.Reads`: what holds of a store, and of the clients of its types.
* `Store.everything_decodes`: it holds after every run.
-/

namespace ControlPlane

/-! ## Sound objects last -/

/-- **Creations and replacements store sound objects**, whatever objects are brought to them. -/
theorem Object.lasting_sound :
    Object.Lasting (fun d o => d.kind.Formed → o.Sound d) (fun _ => True) (fun m => m.wall.Valid)
    where
  created {t scope m o o' key} v _ hm h hd := by
    obtain ⟨hvalid, -, -, rfl, -, -⟩ := Table.creation_eq_ok_iff.mp h
    have htypes := Definition.types_eq_of_validate hvalid (Object.types_typedAs o _)
    apply Object.Sound.born hd ?_ ?_ hm v
    · rw [Scope.types_mark, Object.types_named, Object.types_typedAs, htypes]
    · exact Definition.validate_mark hd (Definition.validate_named hd hvalid m.suffix) scope
  replaced {t scope o next expected x key r} v _ hr h hd := by
    obtain ⟨hvalid, -, -, -, -, -, -, rfl⟩ := Table.revision_eq_ok_iff.mp h
    have htypes := Definition.types_eq_of_validate hvalid (Object.types_typedAs o _)
    apply Object.Sound.succeeding hd ?_ ?_ (hr hd) v
    · rw [Scope.types_mark]
      exact Table.types_composed x (hr hd).types
        ((Object.types_typedAs o _).trans (congrArg some htypes))
    · exact Definition.validate_mark hd (Table.validate_composed (hr hd).valid hvalid x) scope
  patched _ _ := trivial

/-! ## Requests without a document -/

namespace Error

/-- The result is not that a document does not decode. -/
def Spares {α : Type} (result : Except Error α) : Prop := result ≠ .error (.invalid .undecodable)

theorem spares_ok {α : Type} (a : α) : Spares (.ok a) := nofun

theorem spares_bind {α β : Type} {x : Except Error α} {f : α → Except Error β} (hx : Spares x)
    (hf : ∀ a, Spares (f a)) : Spares (x >>= f) := by
  cases x with
  | error e => exact fun h => hx (congrArg _ (Except.error.inj h))
  | ok a => exact hf a

theorem spares_map {α β : Type} {x : Except Error α} (hx : Spares x) (f : α → β) :
    Spares (x.map f) := by
  cases x with
  | error e => exact fun h => hx (congrArg _ (Except.error.inj h))
  | ok a => exact spares_ok _

theorem spares_mapM {α β : Type} {f : α → Except Error β} (hf : ∀ a, Spares (f a))
    (xs : List α) : Spares (xs.mapM f) := by
  induction xs with
  | nil => exact spares_ok []
  | cons x xs ih =>
    rw [List.mapM_cons]
    exact spares_bind (hf x) fun y => spares_bind ih fun ys => spares_ok (y :: ys)

theorem spares_parseOptional (s : String) : Spares (Version.parseOptional s) := by
  unfold Version.parseOptional Version.parse
  split
  · exact spares_ok none
  · cases Version.parse? s <;> nofun

theorem spares_ofQuery (ns labels fields : Option String) :
    Spares (Criteria.ofQuery ns labels fields) := by
  have hlabels (s : String) : Spares (LabelSelector.parse s) := by
    unfold LabelSelector.parse
    cases LabelSelector.terms? s.toList with
    | none => nofun
    | some terms =>
      apply spares_map
      apply spares_mapM
      intro term
      simp only [LabelSelector.parseTerm]
      split <;> nofun
  have hfields (s : String) : Spares (FieldSelector.parse s) := by
    unfold FieldSelector.parse
    split
    · exact spares_ok _
    · apply spares_map
      apply spares_mapM
      intro term
      simp only [FieldRequirement.parse]
      split
      · nofun
      · split <;> nofun
  have hoption {α : Type} {parse : String → Except Error α} (hparse : ∀ s, Spares (parse s))
      (text : Option String) : Spares (text.mapM parse) := by
    cases text with
    | none => exact spares_ok none
    | some s => exact spares_map (hparse s) some
  unfold Criteria.ofQuery
  exact spares_bind (hoption hlabels labels) fun _ => spares_bind (hoption hfields fields) fun _ =>
    spares_ok _

end Error

namespace Store

open Error (Spares)

variable {s : Store} {scope : Scope} {m : Moment}

theorem spares_requireRunning (t : Table) : Spares t.requireRunning := by
  unfold Table.requireRunning
  split <;> nofun

theorem spares_requireDeclared (t : Table) (criteria : Criteria) :
    Spares (t.requireDeclared criteria) := by
  intro h
  obtain ⟨path, hpath⟩ := requireDeclared_eq_error h
  cases hpath

theorem spares_record (t : Table) (scope : Scope) (key : Key) : Spares (t.record scope key) := by
  unfold Table.record
  split <;> nofun

theorem spares_removal (t : Table) (scope : Scope) (key : Key) (precondition : Option Version) :
    Spares (t.removal scope key precondition) := by
  have hversion (current : Version) : Spares (t.requireVersion key precondition current) := by
    unfold Table.requireVersion
    split
    · split <;> nofun
    · nofun
  unfold Table.removal
  exact Error.spares_bind (spares_requireRunning t) fun _ =>
    Error.spares_bind (spares_record t scope key) fun r =>
      Error.spares_bind (hversion r.version) fun _ => Error.spares_ok r

theorem spares_opening (t : Table) (x : Selection) (since : Option Version) :
    Spares (t.opening x since) := by
  have hinitial : Spares (t.initialEvents x since) := by
    unfold Table.initialEvents
    split
    · split <;> nofun
    · exact Error.spares_ok _
  unfold Table.opening
  exact Error.spares_bind (spares_requireDeclared t x.criteria) fun _ =>
    Error.spares_bind (spares_requireRunning t) fun _ => hinitial

/-- The request carries an object or a patch. -/
def Request.hasDocument : Request → Bool
  | .create _ => true
  | .update .. => true
  | .patch .. => true
  | _ => false

/-- **A request without a document is never refused because a document does not decode.** -/
theorem spares_serve {r : Request} (hr : r.hasDocument = false) (f : Focus) :
    Spares (serve scope m r f).1 := by
  cases r with
  | get key => exact Error.spares_map (Error.spares_map (spares_record f.table scope key) _) _
  | list criteria =>
    apply Error.spares_map
    exact Error.spares_bind (spares_requireDeclared f.table criteria) fun _ => Error.spares_ok _
  | watch criteria since timeout =>
    apply Error.spares_map
    have hopening := spares_opening f.table ⟨criteria, scope⟩ since
    cases hresult : f.watch scope m criteria since timeout with
    | mk result f' =>
      rcases Focus.watch_spec hresult with ⟨e, ho, rfl, -⟩ | ⟨events, -, rfl, -⟩
      · exact fun h => hopening (ho.trans (congrArg _ (Except.error.inj h)))
      · exact Error.spares_ok _
  | delete key precondition =>
    apply Error.spares_map
    have hremoval := spares_removal f.table scope key precondition
    unfold Focus.delete
    cases hd : f.table.removal scope key precondition with
    | error e => exact fun h => hremoval (hd.trans (congrArg _ (Except.error.inj h)))
    | ok r => exact Error.spares_ok _
  | deleteCollection criteria =>
    apply Error.spares_map
    have hremovals : Spares (f.table.removals scope criteria) := by
      unfold Table.removals
      exact Error.spares_bind (spares_requireDeclared f.table criteria) fun _ =>
        Error.spares_bind (spares_requireRunning f.table) fun _ => Error.spares_ok _
    unfold Focus.deleteCollection
    cases hd : f.table.removals scope criteria with
    | error e => exact fun h => hremovals (hd.trans (congrArg _ (Except.error.inj h)))
    | ok keys => exact Error.spares_ok _
  | create o => cases hr
  | update o expected subresource => cases hr
  | patch key subresource p => cases hr

theorem spares_perform {r : Request} (hr : r.hasDocument = false) (s : Store) (kind : String) :
    Spares (s.perform kind scope m r).1 := by
  unfold perform onKind
  cases hfind : s.find kind with
  | error e =>
    obtain ⟨name, rfl⟩ := find_eq_error hfind
    nofun
  | ok i =>
    dsimp only
    cases s.tables[i]? with
    | none => nofun
    | some t => exact spares_serve hr (s.focus t)

end Store

namespace Client

open Error (Spares)

/-- The order carries a document or a patch. -/
def Order.hasDocument : Order → Bool
  | .create _ => true
  | .replace .. => true
  | .replaceStatus .. => true
  | .patch .. => true
  | _ => false

theorem hasDocument_request {c : Client} {o : Order} {r : Store.Request}
    (h : c.request o = .ok r) : r.hasDocument = o.hasDocument := by
  cases o with
  | watch since timeout labels fields =>
    simp only [request, bind_eq_ok_iff, pure_eq_ok_iff] at h
    obtain ⟨_, -, _, -, rfl⟩ := h
    rfl
  | get name => cases h; rfl
  | find name => cases h; rfl
  | patch name p subresource => cases h; rfl
  | delete name => cases h; rfl
  | _ =>
    obtain ⟨_, -, rfl⟩ := map_eq_ok_iff.mp h
    rfl

theorem spares_request (c : Client) {o : Order} (ho : o.hasDocument = false) :
    Spares (c.request o) := by
  cases o with
  | get name => exact Error.spares_ok _
  | find name => exact Error.spares_ok _
  | delete name => exact Error.spares_ok _
  | list labels fields => exact Error.spares_map (Error.spares_ofQuery _ _ _) _
  | deleteCollection labels fields => exact Error.spares_map (Error.spares_ofQuery _ _ _) _
  | watch since timeout labels fields =>
    exact Error.spares_bind (Error.spares_ofQuery _ _ _) fun _ =>
      Error.spares_bind (Error.spares_parseOptional since) fun _ => Error.spares_ok _
  | create document => cases ho
  | replace name document => cases ho
  | replaceStatus name document => cases ho
  | patch name p subresource => cases ho

/-- An order that is answered keeps its answer; only for an error does it matter what was asked. -/
theorem conclude_ok (o : Order) (answer : Answer) : o.conclude (.ok answer) = .ok answer := by
  cases o <;> rfl

end Client

/-! ## Clients of the types of a store -/

namespace Client

variable {c : Client} {d : Definition} {s : Store}

theorem decode_ok {r : Resource} (hr : r.decode? = d.kind.decode?) {o : Object}
    (ho : d.validate o = .ok ()) : ∃ json, r.decode o = .ok json := by
  obtain ⟨json, hjson⟩ := Option.isSome_iff_exists.mp (Definition.validate_eq_ok_iff.mp ho).2
  exact ⟨json, by rw [Resource.decode, hr, hjson]⟩

/-- **A reply is read if its objects are valid for the type of the client.** -/
theorem read_ok (hc : c.resource.decode? = d.kind.decode?) (version : Version)
    {reply : Store.Reply} (h : ∀ o ∈ reply.objects, d.validate o = .ok ()) :
    ∃ answer, c.read version reply = .ok answer := by
  have hlist (version : Version) {objects : List Object}
      (h : ∀ o ∈ objects, d.validate o = .ok ()) :
      ∃ json, c.listDocument version objects = .ok json := by
    obtain ⟨items, hitems⟩ := exists_mapM_eq_ok fun o ho => decode_ok hc (h o ho)
    exact ⟨_, bind_eq_ok_iff.mpr ⟨items, hitems, rfl⟩⟩
  cases reply with
  | object o =>
    obtain ⟨json, hjson⟩ := decode_ok hc (h o List.mem_cons_self)
    exact ⟨_, map_eq_ok_iff.mpr ⟨json, hjson, rfl⟩⟩
  | listing l =>
    obtain ⟨json, hjson⟩ := hlist l.version h
    exact ⟨_, map_eq_ok_iff.mpr ⟨json, hjson, rfl⟩⟩
  | tombstones objects =>
    obtain ⟨json, hjson⟩ := hlist version h
    exact ⟨_, map_eq_ok_iff.mpr ⟨json, hjson, rfl⟩⟩
  | watching handle => exact ⟨_, rfl⟩

theorem conclude_error {o : Order} {e e' : Error} (h : o.conclude (.error e) = .error e') :
    e = e' := by
  cases o with
  | find name =>
    simp only [Order.conclude] at h
    split at h
    · cases h
    · exact Except.error.inj h
  | _ => exact Except.error.inj h

/-- The stream is not over, and its type is that of the table it watches. -/
structure Watch.Fitting (w : Client.Watch) (s : Store) : Prop where
  unbroken : w.broken = false
  decode_eq : ∀ (i : Nat) (t : Table), s.position? w.handle.kind = some i →
    s.tables[i]? = some t → w.resource.decode? = t.definition.kind.decode?

theorem Watch.Fitting.congr {s' : Store} {w : Client.Watch} (h : w.Fitting s)
    (hkinds : s.SameKinds s') : w.Fitting s' where
  unbroken := h.unbroken
  decode_eq i t' hi ht' := by
    obtain ⟨t, ht⟩ := hkinds.symm.table_some ht'
    rw [hkinds.definition_eq ht ht']
    exact h.decode_eq i t (hkinds.position?_eq _ ▸ hi) ht

end Client

/-! ## Stores whose objects decode -/

/-- The object decodes as one of the kind: it names the type of the kind, and passes the check of
what is written. -/
structure Object.Decodes (d : Definition) (o : Object) : Prop where
  types : o.types = some d.typeMeta
  valid : d.validate o = .ok ()

namespace Store

/-- Everything decodes that the store holds or gives away: the records, what the histories show, and
the events that consumers take. -/
structure Decodes (s : Store) : Prop where
  records : ∀ (i : Nat) (t : Table), s.tables[i]? = some t →
    AllHold (Object.Decodes t.definition) t.records
  history : ∀ (i : Nat) (t : Table), s.tables[i]? = some t →
    ∀ e ∈ t.history.changes, e.2.Shows (Object.Decodes t.definition)
  taken : ∀ (now : Nat) (h : WatchHandle) (e : Event), (s.poll now h).1 = .event e →
    ∃ i t w, s.Watches i h t w ∧ e.object.Decodes t.definition

/-- The action creates nothing, or at a moment that is one of the calendar. -/
def Action.Timely (a : Action) : Prop := a.Brings (fun _ => True) fun m => m.wall.Valid

theorem timely_request {r : Request} (hr : r.hasDocument = false) (kind : String) (scope : Scope)
    (m : Moment) : (Action.call kind scope m (.request r)).Timely := by
  cases r with
  | create o => cases hr
  | update o expected subresource => cases hr
  | _ => trivial

variable {catalog : Catalog} {limits : WatchLimits}

theorem formed_reached (hformed : ∀ d ∈ catalog.definitions, d.kind.Formed)
    (actions : List Action) {i : Nat} {t : Table}
    (ht : ((empty catalog limits).run actions).tables[i]? = some t) :
    t.definition.kind.Formed := by
  apply hformed
  rw [← definitions_reached catalog limits actions]
  exact List.mem_map_of_mem (List.mem_of_getElem? ht)

/-- **Everything in a store decodes**, after every run. -/
theorem decodes_run (hformed : ∀ d ∈ catalog.definitions, d.kind.Formed) {actions : List Action}
    (hactions : ∀ a ∈ actions, a.Timely) : ((empty catalog limits).run actions).Decodes := by
  have hholds := holds_run Object.lasting_sound (fun d o v h hd => (h hd).stamped hd v) catalog
    limits hactions
  have decodes {i : Nat} {t : Table} {o : Object}
      (ht : ((empty catalog limits).run actions).tables[i]? = some t)
      (ho : t.definition.kind.Formed → o.Sound t.definition) : o.Decodes t.definition := by
    have hsound := ho (formed_reached hformed actions ht)
    exact ⟨hsound.types, hsound.valid⟩
  refine ⟨fun i t ht key r hr => decodes ht (hholds.records i t ht key r hr), ?_, ?_⟩
  · intro i t ht e he
    have hshows := hholds.history i t ht e he
    obtain ⟨version, change⟩ := e
    cases change with
    | created new => exact decodes ht hshows
    | updated old new => exact ⟨decodes ht hshows.1, decodes ht hshows.2⟩
    | deleted tombstone => exact decodes ht hshows
  · intro now h e he
    obtain ⟨i, t, w, hw, -, hpresents⟩ := hholds.taken he
    exact ⟨i, t, w, hw, decodes hw.table_eq hpresents⟩

/-- **Every object that a store answers with decodes.** -/
theorem answered_decodes (hformed : ∀ d ∈ catalog.definitions, d.kind.Formed)
    {actions : List Action} (hactions : ∀ a ∈ actions, a.Timely) {s : Store}
    (hs : s = (empty catalog limits).run actions) {kind : String} {i : Nat} {t : Table}
    (hfind : s.find kind = .ok i) (ht : s.tables[i]? = some t) {scope : Scope} {m : Moment}
    {r : Request} (hr : (Action.call kind scope m (.request r)).Timely) {reply : Reply}
    (hreply : (s.perform kind scope m r).1 = .ok reply) :
    ∀ o ∈ reply.objects, t.definition.validate o = .ok () := by
  have hstamped (d : Definition) (o : Object) (v : Version) (h : d.kind.Formed → o.Sound d)
      (hd : d.kind.Formed) : (o.stamped v).Sound d := (h hd).stamped hd v
  have hholds := holds_run Object.lasting_sound hstamped catalog limits hactions
  have hfollows := follows_reached catalog limits actions
  rw [← hs] at hholds hfollows
  obtain ⟨i', t', hfind', ht', hobjects⟩ := hholds.answered Object.lasting_sound hstamped hfollows
    hr (congrArg Outcome.answer hreply)
  obtain rfl := Except.ok.inj (hfind.symm.trans hfind')
  obtain rfl := Option.some.inj (ht.symm.trans ht')
  intro o ho
  exact (hobjects o ho (formed_reached hformed actions (hs ▸ ht))).valid

end Store

namespace Client

variable {c : Client} {s : Store}

/-- **What is taken from a stream of the type of its table is never undecodable**, and the stream
goes on. -/
theorem Watch.Fitting.poll {w : Client.Watch} (h : w.Fitting s) (hs : s.Decodes) (now : Nat) :
    (w.poll s now).2.1 = w ∧ ∀ version e, (w.poll s now).1 ≠ .undecodable version e := by
  have hdecode (e : Event) (hevent : (s.poll now w.handle).1 = .event e) :
      ∃ json, w.resource.decode e.object = .ok json := by
    obtain ⟨i, t, w', hw, hdecodes⟩ := hs.taken now w.handle e hevent
    exact decode_ok (h.decode_eq i t hw.position_eq hw.table_eq) hdecodes.valid
  rw [Watch.poll, h.unbroken, if_neg Bool.false_ne_true]
  generalize s.poll now w.handle = p at hdecode ⊢
  obtain ⟨item, s'⟩ := p
  cases item with
  | event e =>
    obtain ⟨json, hjson⟩ := hdecode e rfl
    dsimp only
    rw [hjson]
    exact ⟨rfl, nofun⟩
  | _ => exact ⟨rfl, nofun⟩

/-- What a client of the type of its table can rely on. -/
structure Reads (c : Client) (s : Store) : Prop where
  /-- An order fails only if it is refused, by the client or by the store. -/
  answered : ∀ (m : Moment) (o : Order), m.wall.Valid → ∀ e, (c.carryOut s m o).1 = .error e →
    c.request o = .error e ∨
      ∃ r, c.request o = .ok r ∧ (s.perform c.kind c.view.scope m r).1 = .error e
  /-- An order without a document never fails because a document does not decode. -/
  spared : ∀ (m : Moment) (o : Order), o.hasDocument = false →
    (c.carryOut s m o).1 ≠ .error (.invalid .undecodable)
  /-- A stream goes on, whatever happens to the store, and none of its events is undecodable. -/
  watched : ∀ (m : Moment) (since : String) (timeout : Option Nat) (labels fields : Option String)
    (w : Watch), (c.carryOut s m (.watch since timeout labels fields)).1 = .ok (.watching w) →
    ∀ after : List Store.Action, (∀ a ∈ after, a.Timely) → ∀ now : Nat,
      (w.poll ((c.carryOut s m (.watch since timeout labels fields)).2.run after) now).2.1 = w ∧
      ∀ version e,
        (w.poll ((c.carryOut s m (.watch since timeout labels fields)).2.run after) now).1 ≠
          .undecodable version e

/-- At a moment of the calendar, everything is timely. -/
theorem timely_of_moment {m : Moment} (hm : m.wall.Valid) {o : Order} :
    ∀ a ∈ c.actions m o, a.Timely := by
  intro a ha
  obtain ⟨r, -, rfl⟩ := mem_actions.mp ha
  cases r with
  | create o => exact ⟨trivial, hm⟩
  | _ => trivial

theorem timely_of_blank {o : Order} (ho : o.hasDocument = false) (m : Moment) :
    ∀ a ∈ c.actions m o, a.Timely := by
  intro a ha
  obtain ⟨r, hr, rfl⟩ := mem_actions.mp ha
  exact Store.timely_request ((hasDocument_request hr).trans ho) ..

end Client

namespace Store

section Reads

variable {catalog : Catalog} {limits : WatchLimits} {actions : List Action} {s : Store} {i : Nat}
  {t : Table} {c : Client}

/-- **An order fails only if it is refused**, by the client or by the store. -/
theorem refused_of_failed (hformed : ∀ d ∈ catalog.definitions, d.kind.Formed)
    (hactions : ∀ a ∈ actions, a.Timely) (hs : s = (empty catalog limits).run actions)
    (hfind : s.find c.kind = .ok i) (ht : s.tables[i]? = some t)
    (hdecode : c.resource.decode? = t.definition.kind.decode?) {m : Moment} {o : Client.Order}
    (htimely : ∀ a ∈ c.actions m o, a.Timely) {e : Error}
    (he : (c.carryOut s m o).1 = .error e) :
    c.request o = .error e ∨
      ∃ r, c.request o = .ok r ∧ (s.perform c.kind c.view.scope m r).1 = .error e := by
  cases hr : c.request o with
  | error e' =>
    rw [Client.carryOut_refused hr] at he
    exact Or.inl (congrArg _ (Except.error.inj he))
  | ok r =>
    refine Or.inr ⟨r, rfl, ?_⟩
    rw [Client.carryOut_requested hr] at he
    dsimp only at he
    cases hreply : (s.perform c.kind c.view.scope m r).1 with
    | error e' =>
      rw [hreply] at he
      exact congrArg _ (Client.conclude_error he)
    | ok reply =>
      have hr' : (Action.call c.kind c.view.scope m (.request r)).Timely :=
        htimely _ (Client.mem_actions.mpr ⟨r, hr, rfl⟩)
      obtain ⟨answer, hanswer⟩ := Client.read_ok hdecode
        (s.perform c.kind c.view.scope m r).2.version
        (answered_decodes hformed hactions hs hfind ht hr' hreply)
      rw [hreply, Except.bind, hanswer, Client.conclude_ok] at he
      cases he

/-- A stream that the client opens keeps to its table, whatever happens to the store. -/
theorem fitting_opened (hs : s = (empty catalog limits).run actions)
    (hfind : s.find c.kind = .ok i) (ht : s.tables[i]? = some t)
    (hdecode : c.resource.decode? = t.definition.kind.decode?) {m : Moment} {since : String}
    {timeout : Option Nat} {labels fields : Option String} {w : Client.Watch}
    (hw : (c.carryOut s m (.watch since timeout labels fields)).1 = .ok (.watching w))
    (after : List Action) :
    w.Fitting ((c.carryOut s m (.watch since timeout labels fields)).2.run after) := by
  have hfollows := hs ▸ follows_reached catalog limits actions
  obtain ⟨criteria, since', -, hr, hopen, hresource, hbroken⟩ := Client.carryOut_opened hw
  obtain ⟨i', t', events, hfind', ht', -, hwatches⟩ :=
    act_opened hfollows (congrArg Outcome.answer hopen)
  obtain rfl := Except.ok.inj (hfind.symm.trans hfind')
  obtain rfl := Option.some.inj (ht.symm.trans ht')
  rw [Client.carryOut_requested hr]
  dsimp only
  have hfitting :
      w.Fitting (s.perform c.kind c.view.scope m (.watch criteria since' timeout)).2 := by
    refine ⟨hbroken, ?_⟩
    intro j t' hj ht'
    obtain rfl := Option.some.inj (hwatches.position_eq.symm.trans hj)
    obtain rfl := Option.some.inj (hwatches.table_eq.symm.trans ht')
    exact (congrArg Resource.decode? hresource).trans hdecode
  have hcalled := hfollows.act
    (.call c.kind c.view.scope m (.request (.watch criteria since' timeout)))
  exact hfitting.congr (sameKinds_run hcalled after)

variable (catalog limits) in
/-- **Everything a store holds decodes**, after every run: every record, every object in a history,
and every event that a watch yields is valid for the kind of its table. So a client whose type is
that of its table reads every answer, and every event of every stream that it opens. -/
theorem everything_decodes (hformed : ∀ d ∈ catalog.definitions, d.kind.Formed)
    (hactions : ∀ a ∈ actions, a.Timely) (hs : s = (empty catalog limits).run actions) :
    s.Decodes ∧
    ∀ (c : Client) (i : Nat) (t : Table), s.find c.kind = .ok i → s.tables[i]? = some t →
      c.resource.decode? = t.definition.kind.decode? → c.Reads s := by
  refine ⟨hs ▸ decodes_run hformed hactions, ?_⟩
  intro c i t hfind ht hdecode
  refine ⟨?_, ?_, ?_⟩
  · intro m o hm e he
    apply refused_of_failed hformed hactions hs hfind ht hdecode ?_ he
    exact Client.timely_of_moment hm
  · intro m o ho he
    have htimely : ∀ a ∈ c.actions m o, a.Timely := Client.timely_of_blank ho m
    rcases refused_of_failed hformed hactions hs hfind ht hdecode htimely he with
      hrequest | ⟨r, hr, hreply⟩
    · exact c.spares_request ho hrequest
    · exact spares_perform ((Client.hasDocument_request hr).trans ho) s c.kind hreply
  · intro m since timeout labels fields w hw after hafter now
    apply (fitting_opened hs hfind ht hdecode hw after).poll ?_ now
    rw [Client.carryOut_reached hs, ← run_append]
    apply decodes_run hformed
    rw [List.forall_mem_append, List.forall_mem_append]
    exact ⟨⟨hactions, Client.timely_of_blank rfl m⟩, hafter⟩

end Reads

/-- A store with a config map that a watch has not shown yet. -/
def decodableConfigs : List Action := [createConfig "a", watchConfigs 0]

theorem everything_decodes_configs :
    ∃ t e, ((empty Client.configCatalog ⟨2, 1000, 2⟩).run decodableConfigs).find "ConfigMap" =
        .ok 0 ∧
      ((empty Client.configCatalog ⟨2, 1000, 2⟩).run decodableConfigs).tables[0]? = some t ∧
      t.records.length = 1 ∧
      (((empty Client.configCatalog ⟨2, 1000, 2⟩).run decodableConfigs).poll 1
        ⟨"v1/ConfigMap", 0⟩).1 = .event e ∧
      ((empty Client.configCatalog ⟨2, 1000, 2⟩).run decodableConfigs).Decodes ∧
      Client.configClient.Reads
        ((empty Client.configCatalog ⟨2, 1000, 2⟩).run decodableConfigs) := by
  have hformed : ∀ d ∈ Client.configCatalog.definitions, d.kind.Formed := by
    intro d hd
    obtain rfl := List.mem_singleton.mp hd
    exact Kind.formed_known (by simp [Kind.known, Definition.ofKind])
  have htimely : ∀ a ∈ decodableConfigs, a.Timely := by
    simp only [decodableConfigs, List.forall_mem_cons]
    exact ⟨⟨trivial, by constructor <;> decide⟩, trivial, List.forall_mem_nil _⟩
  obtain ⟨hdecodes, hreads⟩ := everything_decodes Client.configCatalog ⟨2, 1000, 2⟩ hformed
    htimely rfl
  exact ⟨_, _, rfl, rfl, rfl, rfl, hdecodes, hreads Client.configClient 0 _ rfl rfl rfl⟩

end Store

end ControlPlane
