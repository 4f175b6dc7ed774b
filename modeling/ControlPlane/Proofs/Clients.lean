import ControlPlane.Client
import ControlPlane.Proofs.Opening
import ControlPlane.Proofs.Registration

/-!
# Where a typed client acts

A typed client is opened by the full name of its kind, but it addresses its table by the short name.
Whatever it is asked, it acts on the table to which that name leads, exactly as the request of a
view would that names the kind of that table in full, and on no other table. That table is its own,
unless another kind took the short name first.

* `Client.Order`, `Client.carryOut`: everything a client can be asked, and what it does.
* `Client.carryOut_eq`: it makes one request by the short name of its kind.
* `Client.acts_on_named_table`: the table on which it acts, in every store that can be reached.
* `Client.other_table_emptied`: a client that deletes the object of another kind.
-/

namespace ControlPlane

namespace Client

/-! ## What a client is asked -/

/-- What is asked of a client. -/
inductive Order where
  | create (document : Json)
  | get (name : String)
  | find (name : String)
  | list (labels fields : Option String)
  | watch (since : String) (timeout : Option Nat) (labels fields : Option String)
  | replace (name : String) (document : Json)
  | replaceStatus (name : String) (document : Json)
  | patch (name : String) (patch : Patch) (subresource : Option String)
  | delete (name : String)
  | deleteCollection (labels fields : Option String)

/-- What a client answers. -/
inductive Answer where
  | object (document : Json)
  | absent
  | list (document : Json)
  | watching (w : Watch)

/-- What a client does when it is asked. -/
def carryOut (c : Client) (s : Store) (m : Moment) : Order → Except Error Answer × Store
  | .create document =>
    let (result, s) := c.create s m document
    (result.map .object, s)
  | .get name => ((c.get s name).map .object, s)
  | .find name => ((c.find? s name).map fun found => (found.map Answer.object).getD .absent, s)
  | .list labels fields => ((c.list s labels fields).map .list, s)
  | .watch since timeout labels fields =>
    let (result, s) := c.watch s m since timeout labels fields
    (result.map .watching, s)
  | .replace name document =>
    let (result, s) := c.replace s m name document
    (result.map .object, s)
  | .replaceStatus name document =>
    let (result, s) := c.replaceStatus s m name document
    (result.map .object, s)
  | .patch name patch subresource =>
    let (result, s) := c.patch s m name patch subresource
    (result.map .object, s)
  | .delete name =>
    let (result, s) := c.delete s m name
    (result.map .object, s)
  | .deleteCollection labels fields =>
    let (result, s) := c.deleteCollection s m labels fields
    (result.map .list, s)

/-! ## Orders as requests of a view -/

/-- The request by which a client carries out an order. -/
def request (c : Client) : Order → Except Error Store.Request
  | .create document => (c.encode document).map .create
  | .get name | .find name => .ok (.get (c.key name))
  | .list labels fields => (c.criteria labels fields).map .list
  | .watch since timeout labels fields => do
    let criteria ← c.criteria labels fields
    let since ← Version.parseOptional since
    return .watch criteria since timeout
  | .replace name document => (c.encodeAs name document).map fun o => .update o none none
  | .replaceStatus name document =>
    (c.encodeAs name document).map fun o => .update o none (some "status")
  | .patch name patch subresource => .ok (.patch (c.key name) subresource patch)
  | .delete name => .ok (.delete (c.key name) none)
  | .deleteCollection labels fields => (c.criteria labels fields).map .deleteCollection

/-- The reply to a request in terms of documents, at a version of the store. -/
def read (c : Client) (version : Version) : Store.Reply → Except Error Answer
  | .object o => (c.resource.decode o).map .object
  | .listing l => (c.listDocument l.version l.items).map .list
  | .tombstones objects => (c.listDocument version objects).map .list
  | .watching handle => .ok (.watching ⟨c.resource, handle, false⟩)

/-- An object that is not there is no failure to one who asks whether it is. -/
def Order.conclude : Order → Except Error Answer → Except Error Answer
  | .find _, .error e => if e.isNotFound then .ok .absent else .error e
  | _, answer => answer

/-- An order carried out by the request of the client's view for a kind of any name. -/
def through (c : Client) (s : Store) (kind : String) (m : Moment) (o : Order) :
    Except Error Answer × Store :=
  match c.request o with
  | .error e => (.error e, s)
  | .ok r =>
    let (result, s) := s.perform kind c.view.scope m r
    (o.conclude (result.bind (c.read s.version)), s)

/-- An order carried out on one table, of which alone anything is read and written. -/
def onlyOn (c : Client) (s : Store) (i : Nat) (t : Table) (m : Moment) (o : Order) :
    Except Error Answer × Store :=
  match c.request o with
  | .error e => (.error e, s)
  | .ok r =>
    let (result, f) := Store.serve c.view.scope m r (s.focus t)
    (o.conclude (result.bind (c.read f.version)), s.absorb i f)

end Client

namespace Store

variable {α β : Type} (s : Store) (kind : String)

theorem onKind_map (operation : Focus → Except Error α × Focus) (g : α → β) :
    s.onKind kind (fun f => ((operation f).1.map g, (operation f).2)) =
      ((s.onKind kind operation).1.map g, (s.onKind kind operation).2) := by
  unfold onKind
  split
  · rfl
  · split <;> rfl

/-- An operation that only reads leaves the store as it is. -/
theorem onKind_read (read : Focus → Except Error α) :
    (s.onKind kind fun f => (read f, f)).2 = s := by
  unfold onKind
  split
  · rfl
  · split
    · rfl
    · next ht => exact absorb_focus ht

end Store

/-- Opening a watch leaves the table the one of its kind. -/
theorem Focus.watch_definition (f : Focus) (scope : Scope) (m : Moment) (criteria : Criteria)
    (since : Option Version) (timeout : Option Nat) :
    (f.watch scope m criteria since timeout).2.table.definition = f.table.definition := by
  rw [watch]
  cases f.table.opening ⟨criteria, scope⟩ since <;> rfl

namespace Client

variable (c : Client) (s : Store) (m : Moment)

theorem through_refused {o : Order} {e : Error} (h : c.request o = .error e) (kind : String) :
    c.through s kind m o = (.error e, s) := by
  simp only [through, h]

/-- An order whose request is one operation on a table. -/
theorem through_eq {α : Type} {o : Order} {r : Store.Request}
    (operation : Focus → Except Error α × Focus) (reply : α → Store.Reply)
    (hrequest : c.request o = .ok r) (hserve : ∀ f, Store.serve c.view.scope m r f =
      ((operation f).1.map reply, (operation f).2)) :
    c.through s c.kind m o =
      (o.conclude (((c.onTable s operation).1.map reply).bind
        (c.read (c.onTable s operation).2.version)), (c.onTable s operation).2) := by
  have hperform : s.perform c.kind c.view.scope m r =
      ((s.onKind c.kind operation).1.map reply, (s.onKind c.kind operation).2) := by
    rw [Store.perform, funext hserve, Store.onKind_map]
  simp only [through, hrequest, hperform, onTable]

theorem bind_read_object (result : Except Error Object) (version : Version) :
    (result.map Store.Reply.object).bind (c.read version) =
      (result.bind c.resource.decode).map .object := by
  cases result <;> rfl

/-- An order whose reply is an object. -/
theorem through_object {o : Order} {r : Store.Request}
    (operation : Focus → Except Error Object × Focus) (hrequest : c.request o = .ok r)
    (hserve : ∀ f, Store.serve c.view.scope m r f =
      ((operation f).1.map .object, (operation f).2)) :
    c.through s c.kind m o =
      (o.conclude ((c.onObject s operation).1.map .object), (c.onObject s operation).2) := by
  rw [c.through_eq s m operation .object hrequest hserve, bind_read_object]
  rfl

theorem carryOut_create (document : Json) :
    c.carryOut s m (.create document) = c.through s c.kind m (.create document) := by
  cases h : c.encode document with
  | error e =>
    rw [c.through_refused s m (by rw [request, h]; rfl)]
    simp only [carryOut, create, h]
    rfl
  | ok o =>
    rw [c.through_object s m (r := .create o) (fun f => f.create c.view.scope m o)
      (by rw [request, h]; rfl) fun f => rfl]
    simp only [carryOut, create, h]
    rfl

theorem carryOut_get (name : String) :
    c.carryOut s m (.get name) = c.through s c.kind m (.get name) := by
  have hstill := s.onKind_read c.kind fun f => f.get c.view.scope (c.key name)
  rw [c.through_object s m (o := .get name) (fun f => (f.get c.view.scope (c.key name), f)) rfl
    fun f => rfl]
  exact Prod.ext rfl hstill.symm

theorem carryOut_find (name : String) :
    c.carryOut s m (.find name) = c.through s c.kind m (.find name) := by
  have hstill := s.onKind_read c.kind fun f => f.get c.view.scope (c.key name)
  rw [c.through_object s m (o := .find name) (fun f => (f.get c.view.scope (c.key name), f)) rfl
    fun f => rfl]
  refine Prod.ext ?_ hstill.symm
  simp only [carryOut, find?, get]
  cases (c.onObject s fun f => (f.get c.view.scope (c.key name), f)).1 with
  | ok json => rfl
  | error e =>
    simp only [Except.map, Order.conclude]
    by_cases he : e.isNotFound = true
    · simp [he]
    · simp [he]

theorem carryOut_list (labels fields : Option String) :
    c.carryOut s m (.list labels fields) = c.through s c.kind m (.list labels fields) := by
  cases h : c.criteria labels fields with
  | error e =>
    rw [c.through_refused s m (by rw [request, h]; rfl)]
    simp only [carryOut, list, h]
    rfl
  | ok criteria =>
    have hstill := s.onKind_read c.kind fun f => f.list c.view.scope criteria
    rw [c.through_eq s m (r := .list criteria) (fun f => (f.list c.view.scope criteria, f)) .listing
      (by rw [request, h]; rfl) fun f => rfl]
    refine Prod.ext ?_ hstill.symm
    simp only [carryOut, list, h, Order.conclude]
    cases hlisting : (c.onTable s fun f => (f.list c.view.scope criteria, f)).1 with
    | error e => simp only [hlisting, bind, Except.bind, Except.map]
    | ok listing => simp only [hlisting, bind, Except.bind, Except.map, read]

theorem carryOut_watch (since : String) (timeout : Option Nat) (labels fields : Option String) :
    c.carryOut s m (.watch since timeout labels fields) =
      c.through s c.kind m (.watch since timeout labels fields) := by
  cases h : c.criteria labels fields with
  | error e =>
    rw [c.through_refused s m (by rw [request, h]; rfl)]
    simp only [carryOut, watch, h]
    rfl
  | ok criteria =>
    cases hsince : Version.parseOptional since with
    | error e =>
      rw [c.through_refused s m (by rw [request, h, hsince]; rfl)]
      simp only [carryOut, watch, h, hsince]
      rfl
    | ok since' =>
      let opened (f : Focus) : Except Error WatchHandle × Focus :=
        ((f.watch c.view.scope m criteria since' timeout).1.map fun id =>
          ⟨f.table.definition.fullName, id⟩, (f.watch c.view.scope m criteria since' timeout).2)
      have hmap := s.onKind_map c.kind opened fun handle => (⟨c.resource, handle, false⟩ : Watch)
      have hclient : c.watch s m since timeout labels fields =
          s.onKind c.kind fun f =>
            ((opened f).1.map fun handle => ⟨c.resource, handle, false⟩, (opened f).2) := by
        simp only [watch, h, hsince, bind, Except.bind, pure, Except.pure, onTable]
        refine congrArg (s.onKind c.kind) (funext fun f => ?_)
        simp only [opened, Focus.watch_definition]
        cases (f.watch c.view.scope m criteria since' timeout).1 <;> rfl
      rw [c.through_eq s m (r := .watch criteria since' timeout) opened .watching
        (by rw [request, h, hsince]; rfl) fun f => ?_]
      · simp only [carryOut, hclient, hmap, Order.conclude, onTable]
        cases (s.onKind c.kind opened).1 <;> rfl
      · simp only [Store.serve, opened]
        cases (f.watch c.view.scope m criteria since' timeout).1 <;> rfl

/-- What an update or a patch does, of the object or of a subresource that its kind may have. -/
def onPart (subresource : Option String)
    (operation : Option Subresource → Focus → Except Error Object × Focus) (f : Focus) :
    Except Error Object × Focus :=
  match subresource.mapM f.table.definition.subresource with
  | .error e => (.error e, f)
  | .ok subresource => operation subresource f

/-- A write of the whole object or of its status is an update. -/
theorem write_eq {name : String} {document : Json} {subresource : Option String} (order : Order)
    (hrequest : c.request order =
      (c.encodeAs name document).map fun o => .update o none subresource)
    (hconclude : order.conclude = id) :
    ((c.write s m name document subresource).1.map .object,
      (c.write s m name document subresource).2) = c.through s c.kind m order := by
  cases h : c.encodeAs name document with
  | error e =>
    rw [c.through_refused s m (by rw [hrequest, h]; rfl)]
    simp only [write, h]
    rfl
  | ok o =>
    rw [c.through_object s m (r := .update o none subresource)
      (onPart subresource fun part f => f.update c.view.scope m o none part)
      (by rw [hrequest, h]; rfl) fun f => ?_, hconclude]
    · simp only [write, h]
      rfl
    · simp only [Store.serve, onPart]
      cases subresource.mapM f.table.definition.subresource <;> rfl

theorem carryOut_patch (name : String) (p : Patch) (subresource : Option String) :
    c.carryOut s m (.patch name p subresource) =
      c.through s c.kind m (.patch name p subresource) := by
  rw [c.through_object s m (o := .patch name p subresource)
    (onPart subresource fun part f => f.patch c.view.scope m (c.key name) part p)
    rfl fun f => ?_]
  · rfl
  · simp only [Store.serve, onPart]
    cases subresource.mapM f.table.definition.subresource <;> rfl

theorem carryOut_deleteCollection (labels fields : Option String) :
    c.carryOut s m (.deleteCollection labels fields) =
      c.through s c.kind m (.deleteCollection labels fields) := by
  cases h : c.criteria labels fields with
  | error e =>
    rw [c.through_refused s m (by rw [request, h]; rfl)]
    simp only [carryOut, deleteCollection, h]
    rfl
  | ok criteria =>
    rw [c.through_eq s m (r := .deleteCollection criteria)
      (fun f => f.deleteCollection c.view.scope m criteria) .tombstones (by rw [request, h]; rfl)
      fun f => rfl]
    simp only [carryOut, deleteCollection, h, Order.conclude]
    cases (c.onTable s fun f => f.deleteCollection c.view.scope m criteria).1 <;> rfl

/-- **A client makes one request by the short name of its kind.** -/
theorem carryOut_eq (o : Order) : c.carryOut s m o = c.through s c.kind m o := by
  cases o with
  | create document => exact c.carryOut_create s m document
  | get name => exact c.carryOut_get s m name
  | find name => exact c.carryOut_find s m name
  | list labels fields => exact c.carryOut_list s m labels fields
  | watch since timeout labels fields => exact c.carryOut_watch s m since timeout labels fields
  | replace name document => exact c.write_eq s m (.replace name document) rfl rfl
  | replaceStatus name document =>
    exact c.write_eq s m (.replaceStatus name document) rfl rfl
  | patch name p subresource => exact c.carryOut_patch s m name p subresource
  | delete name =>
    rw [c.through_object s m (o := .delete name)
      (fun f => f.delete c.view.scope m (c.key name) none) rfl fun f => rfl]
    rfl
  | deleteCollection labels fields => exact c.carryOut_deleteCollection s m labels fields

/-! ## The table to which a name leads -/

variable {s : Store}

theorem through_found {i : Nat} {t : Table} {kind : String} (hfind : s.find kind = .ok i)
    (ht : s.tables[i]? = some t) (o : Order) :
    c.through s kind m o = c.onlyOn s i t m o := by
  unfold through onlyOn
  cases c.request o with
  | error e => rfl
  | ok r =>
    simp only [Store.perform, Store.onKind, hfind, ht]
    rfl

end Client

theorem Definition.fullName_eq (d : Definition) :
    Catalog.fullName d.kind.group d.kind.version d.kind.name = d.fullName := by
  unfold Catalog.fullName Definition.fullName Kind.apiVersion
  split <;> rfl

namespace Store

variable {s : Store} {registered : List Definition}

/-- In a store of a catalog that was built, a name leads to the table of the definition to which it
leads. -/
theorem find_built (hc : s.catalog.Built registered)
    (hdefinitions : s.definitions = s.catalog.definitions) {j : Nat} {d : Definition}
    (hd : s.catalog.definitions[j]? = some d) {name : String}
    (hlookup : s.catalog.lookup name = .ok d) :
    s.find name = .ok j ∧ ∃ t, s.tables[j]? = some t ∧ t.definition = d := by
  have hposition : s.position? d.fullName = some j := by
    have heq : s.position? d.fullName =
        s.definitions.findIdx? (·.fullName == d.fullName) := by
      rw [definitions, List.findIdx?_map]
      rfl
    obtain ⟨hj, hget⟩ := List.getElem?_eq_some_iff.mp hd
    rw [heq, hdefinitions, List.findIdx?_eq_some_iff_getElem]
    refine ⟨hj, by simp [hget], fun k hk => ?_⟩
    -- an earlier definition of that full name would stand at the same position
    simp only [beq_iff_eq]
    intro hname
    have hkj := hc.position_of_fullName (List.getElem?_eq_getElem (Nat.lt_trans hk hj)) hd hname
    omega
  have htable : s.definitions[j]? = some d := hdefinitions ▸ hd
  rw [definitions, List.getElem?_map, Option.map_eq_some_iff] at htable
  refine ⟨?_, htable⟩
  simp only [find, hlookup, bind, Except.bind, hposition]
  rfl

theorem catalog_reached (catalog : Catalog) (limits : WatchLimits) (actions : List Action) :
    ((empty catalog limits).run actions).catalog = catalog :=
  (sameKinds_run (follows_empty catalog limits) actions).catalog_eq

theorem definitions_reached (catalog : Catalog) (limits : WatchLimits) (actions : List Action) :
    ((empty catalog limits).run actions).definitions = catalog.definitions := by
  rw [(sameKinds_run (follows_empty catalog limits) actions).definitions_eq, definitions, empty,
    List.map_map]
  exact List.map_id _

end Store

namespace Client

/-- The client of a kind that is registered is opened, and is a client of that kind. -/
theorem open_registered {s : Store} {registered : List Definition}
    (hc : s.catalog.Built registered) {d : Definition} (hd : d ∈ s.catalog.definitions)
    (view : View) (ns : Option String) :
    Client.open? s view d.kind.resource ns = .ok ⟨d.kind.resource, view, d, ns⟩ := by
  obtain ⟨i, hi⟩ := List.getElem?_of_mem hd
  have hlookup : s.catalog.lookupFull d.kind.group d.kind.version d.kind.name = .ok d := by
    rw [Catalog.lookupFull, Definition.fullName_eq]
    exact hc.lookup_fullName hi
  simp only [open?, Kind.resource, hlookup]
  rfl

/-- **A client acts on the table to which the short name of its kind leads, and on no other.** What
it does is what the request of its view does that names the kind of that table in full. The kind is
one that was registered under the name and, if no other kind bears the name, the client's own. -/
theorem acts_on_named_table (kinds : List Definition) (limits : WatchLimits)
    (before after : List Store.Action) {s₀ s : Store}
    (hs₀ : s₀ = (Store.empty (Catalog.empty.registerAll kinds) limits).run before)
    (hs : s = s₀.run after) {d : Definition} (hd : d ∈ s₀.catalog.definitions) (view : View)
    (ns : Option String) :
    ∃ c d' i t, Client.open? s₀ view d.kind.resource ns = .ok c ∧ c.definition = d ∧
      s.find d'.fullName = .ok i ∧ s.tables[i]? = some t ∧ t.definition = d' ∧
      (∃ e ∈ kinds, Catalog.Bears e d.name ∧ s.catalog.lookup e.fullName = .ok d') ∧
      (∀ m o, c.carryOut s m o = c.onlyOn s i t m o ∧
        c.carryOut s m o = c.through s d'.fullName m o) ∧
      ((∀ e ∈ kinds, Catalog.Bears e d.name → e.fullName = d.fullName) → d' = d) := by
  have hcatalog₀ := Store.catalog_reached (Catalog.empty.registerAll kinds) limits before
  have hcatalog := Store.catalog_reached (Catalog.empty.registerAll kinds) limits (before ++ after)
  have hdefinitions :=
    Store.definitions_reached (Catalog.empty.registerAll kinds) limits (before ++ after)
  rw [Store.run_append, ← hs₀, ← hs, ← hcatalog₀, ← hs₀] at hcatalog
  rw [Store.run_append, ← hs₀, ← hs, ← hcatalog₀, ← hs₀, ← hcatalog] at hdefinitions
  have hc₀ : s₀.catalog.Built kinds := by
    rw [hs₀, hcatalog₀]
    exact Catalog.built_empty.registerAll kinds
  have hc : s.catalog.Built kinds := hcatalog ▸ hc₀
  have hname : d.name ∈ Catalog.shortNames d := List.mem_cons_self
  obtain ⟨i, hi⟩ := List.getElem?_of_mem hd
  rw [← hcatalog] at hi
  obtain ⟨j, d', hd', hlookup, hborne⟩ := hc.lookup_short hi hname
  obtain ⟨hshort, t, ht, hdefinition⟩ := Store.find_built hc hdefinitions hd' hlookup
  obtain ⟨hfull, -⟩ := Store.find_built hc hdefinitions hd' (hc.lookup_fullName hd')
  refine ⟨⟨d.kind.resource, view, d, ns⟩, d', j, t, open_registered hc₀ hd view ns, rfl, hfull, ht,
    hdefinition, hborne, ?_, ?_⟩
  · intro m o
    have hcarried := (carryOut_eq ⟨d.kind.resource, view, d, ns⟩ s m o).trans
      (through_found _ m hshort ht o)
    exact ⟨hcarried, hcarried.trans (through_found _ m hfull ht o).symm⟩
  · intro hown
    exact Except.ok.inj (hlookup.symm.trans (hc.lookup_own hi hname hown))

/-! ### Two kinds of one short name -/

/-- The events of the group of their own, and then those of the core group. -/
def eventKinds : List Definition := [.ofKind Schema.notedEvent, .ofKind Schema.event]

/-- A store of both kinds of events. -/
def eventStore : Store := Store.empty (Catalog.empty.registerAll eventKinds) ⟨2, 1000, 2⟩

def eventMoment : Moment := ⟨0, ⟨2024, 1, 1, 0, 0, 0, 0⟩, "uid", "suffix"⟩

/-- The creation of an event of the group of its own. -/
def createEvent : Store.Action :=
  .call "events.k8s.io/v1/Event" .all eventMoment
    (.request (.create ⟨none, { Metadata.empty with name := some "e", ns := some "n" }, []⟩))

theorem event_mem_eventStore : .ofKind Schema.event ∈ eventStore.catalog.definitions := by
  have hfirst := Catalog.Built.definitions_register (c := .empty) (d := .ofKind Schema.notedEvent)
    (by decide +kernel)
  have hsecond := Catalog.Built.definitions_register
    (c := Catalog.empty.register (.ofKind Schema.notedEvent)) (d := .ofKind Schema.event)
    (by decide +kernel)
  show _ ∈ ((Catalog.empty.register _).register _).definitions
  rw [hsecond]
  exact List.mem_append_right _ List.mem_cons_self

theorem acts_on_named_table_events :
    ∃ c d' i t, Client.open? eventStore .base Schema.event.resource (some "n") = .ok c ∧
      c.definition = .ofKind Schema.event ∧
      (eventStore.run [createEvent]).find (Definition.fullName d') = .ok i ∧
      (eventStore.run [createEvent]).tables[i]? = some t ∧ t.definition = d' ∧
      c.carryOut (eventStore.run [createEvent]) eventMoment (.delete "e") =
        c.onlyOn (eventStore.run [createEvent]) i t eventMoment (.delete "e") := by
  obtain ⟨c, d', i, t, hopen, hc, hfind, ht, hdefinition, -, hcarried, -⟩ :=
    acts_on_named_table eventKinds ⟨2, 1000, 2⟩ [] [createEvent] rfl rfl event_mem_eventStore .base
      (some "n")
  exact ⟨c, d', i, t, hopen, hc, hfind, ht, hdefinition, (hcarried _ _).1⟩

/-- **A client that deletes the event of another kind**, of which its view knows nothing under the
full name of the client's kind. -/
theorem other_table_emptied :
    ∃ c, Client.open? eventStore .base Schema.event.resource (some "n") = .ok c ∧
      c.definition.fullName = "v1/Event" ∧
      ((eventStore.run [createEvent]).tables.map fun t =>
        (t.definition.fullName, t.records.length)) =
          [("events.k8s.io/v1/Event", 1), ("v1/Event", 0)] ∧
      ((c.carryOut (eventStore.run [createEvent]) eventMoment (.delete "e")).2.tables.map fun t =>
        t.records.length) = [0, 0] ∧
      ((c.through (eventStore.run [createEvent]) "v1/Event" eventMoment (.delete "e")).2.tables.map
        fun t => t.records.length) = [1, 0] := by
  refine ⟨_, open_registered (Catalog.built_empty.registerAll eventKinds) event_mem_eventStore
    .base _, rfl, ?_, ?_, ?_⟩
  · decide +kernel
  · decide +kernel
  · decide +kernel

end Client

end ControlPlane
