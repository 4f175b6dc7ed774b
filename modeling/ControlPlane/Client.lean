import ControlPlane.Store.Basic
import ControlPlane.View

/-!
# Typed clients

A typed client works on the objects of one type through one view. What it writes is a document of
the type, and what it reads is decoded as the type again. A client that is bound to a namespace
addresses the objects of that namespace; any other client addresses objects by name alone and lists
those of every namespace.

* `Client.create`, `Client.replace`, `Client.patch`, …: requests in terms of documents.
* `Client.Watch`: a stream of typed events. It ends at the first event it cannot decode.
-/

namespace ControlPlane

/-- A type of documents: the kind it belongs to, and the normal form of its documents. -/
structure Resource where
  group : String
  version : String
  kind : String
  decode? : Json → Option Json

/-- The type of the documents of a kind. -/
def Kind.resource (k : Kind) : Resource := ⟨k.group, k.version, k.name, k.decode?⟩

/-- The document of an object as one of the type. -/
def Resource.decode (r : Resource) (o : Object) : Except Error Json :=
  match r.decode? o.toJson with
  | some json => .ok json
  | none => .error (.invalid .undecodable)

/-- A client of one type, bound to a view and perhaps to a namespace. -/
structure Client where
  resource : Resource
  view : View
  definition : Definition
  ns : Option String

namespace Client

/-- The client of a type through a view of a store that holds its kind. -/
def open? (s : Store) (view : View) (resource : Resource) (ns : Option String) :
    Except Error Client := do
  let d ← s.catalog.lookupFull resource.group resource.version resource.kind
  return ⟨resource, view, d, ns⟩

/-- The name by which the client addresses its table. -/
def kind (c : Client) : String := c.definition.name

/-- The key of a name. -/
def key (c : Client) (name : String) : Key := ⟨c.ns, name⟩

/-- The criteria of the texts of two selectors. -/
def criteria (c : Client) (labels fields : Option String) : Except Error Criteria :=
  Criteria.ofQuery c.ns labels fields

/-- The object of a document, placed in the client's namespace. -/
def encode (c : Client) (document : Json) : Except Error Object := do
  let o ← Object.decode document
  match c.ns with
  | none => return o
  | some ns =>
    match o.metadata.ns.filter (!·.isEmpty) with
    | some other =>
      if other = ns then return o else throw (.invalid (.otherNamespace other ns))
    | none => return { o with metadata := { o.metadata with ns := some ns } }

/-- The object of a document that must have a given name. -/
def encodeAs (c : Client) (name : String) (document : Json) : Except Error Object := do
  let o ← c.encode document
  if o.metadata.name = some name then return o
  else throw (.invalid (.otherName o.name name))

/-- An operation on the table that the client addresses. -/
def onTable {α : Type} (c : Client) (s : Store)
    (operation : Focus → Except Error α × Focus) : Except Error α × Store :=
  s.onKind c.kind operation

/-- An operation whose answer is an object, decoded as the type. The operation has been carried out
even if the answer does not decode. -/
def onObject (c : Client) (s : Store) (operation : Focus → Except Error Object × Focus) :
    Except Error Json × Store :=
  let (result, s) := c.onTable s operation
  (result.bind c.resource.decode, s)

/-- The list document of some objects. -/
def listDocument (c : Client) (version : Version) (objects : List Object) : Except Error Json := do
  let items ← objects.mapM c.resource.decode
  return c.definition.listJson version items

/-- Creates an object. -/
def create (c : Client) (s : Store) (m : Moment) (document : Json) : Except Error Json × Store :=
  match c.encode document with
  | .error e => (.error e, s)
  | .ok o => c.onObject s fun f => f.create c.view.scope m o

/-- The object of a name. -/
def get (c : Client) (s : Store) (name : String) : Except Error Json :=
  (c.onObject s fun f => (f.get c.view.scope (c.key name), f)).1

/-- The object of a name, if there is one. -/
def find? (c : Client) (s : Store) (name : String) : Except Error (Option Json) :=
  match c.get s name with
  | .ok json => .ok (some json)
  | .error e => if e.isNotFound then .ok none else .error e

/-- The objects that selectors select, as a list document. -/
def list (c : Client) (s : Store) (labels fields : Option String) : Except Error Json := do
  let criteria ← c.criteria labels fields
  let listing ← (c.onTable s fun f => (f.list c.view.scope criteria, f)).1
  c.listDocument listing.version listing.items

/-- An update of a named object or of its status. -/
def write (c : Client) (s : Store) (m : Moment) (name : String) (document : Json)
    (subresource : Option String) : Except Error Json × Store :=
  match c.encodeAs name document with
  | .error e => (.error e, s)
  | .ok o =>
    c.onObject s fun f =>
      match subresource.mapM f.table.definition.subresource with
      | .error e => (.error e, f)
      | .ok subresource => f.update c.view.scope m o none subresource

/-- Replaces the object of a name. If the document carries a resource version, it must be the
current one. -/
def replace (c : Client) (s : Store) (m : Moment) (name : String) (document : Json) :
    Except Error Json × Store :=
  c.write s m name document none

/-- Replaces the status of the object of a name. -/
def replaceStatus (c : Client) (s : Store) (m : Moment) (name : String) (document : Json) :
    Except Error Json × Store :=
  c.write s m name document (some "status")

/-- Patches the object of a name, or a part of it. -/
def patch (c : Client) (s : Store) (m : Moment) (name : String) (patch : Patch)
    (subresource : Option String) : Except Error Json × Store :=
  c.onObject s fun f =>
    match subresource.mapM f.table.definition.subresource with
    | .error e => (.error e, f)
    | .ok subresource => f.patch c.view.scope m (c.key name) subresource patch

/-- Deletes the object of a name. -/
def delete (c : Client) (s : Store) (m : Moment) (name : String) : Except Error Json × Store :=
  c.onObject s fun f => f.delete c.view.scope m (c.key name) none

/-- Deletes the objects that selectors select. The answer is a list document at the version of the
last deletion. -/
def deleteCollection (c : Client) (s : Store) (m : Moment) (labels fields : Option String) :
    Except Error Json × Store :=
  match c.criteria labels fields with
  | .error e => (.error e, s)
  | .ok criteria =>
    let (result, s) := c.onTable s fun f => f.deleteCollection c.view.scope m criteria
    (result.bind (c.listDocument s.version), s)

/-! ## Watching -/

/-- A stream of typed events. -/
structure Watch where
  resource : Resource
  handle : WatchHandle
  /-- An event did not decode, so the stream is over. -/
  broken : Bool

/-- What a consumer takes from a typed stream. -/
inductive Item where
  | event (type : EventType) (document : Json)
  | closed (reason : EndReason)
  /-- The event at a version does not decode. -/
  | undecodable (version : Version) (error : Error)
  | pending
  | over

/-- Watches the objects that selectors select, after a version given as text; the empty text is no
version. -/
def watch (c : Client) (s : Store) (m : Moment) (since : String) (timeout : Option Nat)
    (labels fields : Option String) : Except Error Watch × Store :=
  let parsed : Except Error (Criteria × Option Version) := do
    let criteria ← c.criteria labels fields
    let since ← Version.parseOptional since
    return (criteria, since)
  match parsed with
  | .error e => (.error e, s)
  | .ok (criteria, since) =>
    c.onTable s fun f =>
      let (result, f) := f.watch c.view.scope m criteria since timeout
      (result.map fun id => ⟨c.resource, ⟨f.table.definition.fullName, id⟩, false⟩, f)

namespace Watch

/-- What the consumer takes next. An event that does not decode stops the watch. -/
def poll (w : Watch) (s : Store) (now : Nat) : Item × Watch × Store :=
  if w.broken then (.over, w, s)
  else
    let (item, s) := s.poll now w.handle
    match item with
    | .event e =>
      match w.resource.decode e.object with
      | .ok document => (.event e.type document, w, s)
      | .error error =>
        (.undecodable e.version error, { w with broken := true }, s.dropWatch w.handle)
    | .closed reason => (.closed reason, w, s)
    | .pending => (.pending, w, s)
    | .over => (.over, w, s)

end Watch

end Client

end ControlPlane
