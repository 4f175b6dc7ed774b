import ControlPlane.Store.Table

/-!
# Mutations of a table

Every mutation first decides what it would commit, and refuses the request if any check fails; only
then does it commit. The decision is a function of the request and the table alone.

* `Table.creation`, `Table.revision`, `Table.removal`: the decisions.
* `Focus.create`, `Focus.update`, `Focus.patch`, `Focus.delete`, `Focus.deleteCollection`: the
  mutations. A refused request leaves everything as it was.
-/

namespace ControlPlane

namespace Object

/-- The object with the type of its kind, unless it has one. -/
def typedAs (o : Object) (d : Definition) : Object :=
  { o with types := some (o.types.getD d.typeMeta) }

/-- The object with a name, generated if it has none but the beginning of one. -/
def named (o : Object) (suffix : String) : Object :=
  match o.metadata.generateName with
  | some start =>
    if o.name.isEmpty then
      { o with metadata := { o.metadata with name := some (start ++ suffix) } }
    else o
  | none => o

/-- The object as it is stored when it is created. -/
def born (o : Object) (m : Moment) (version : Version) : Object :=
  { o with
    metadata :=
      { o.metadata with
        uid := some m.uid
        creationTimestamp := some m.wall.seconds
        generation := some 1
        resourceVersion := some version.text } }

/-- The members of the data other than the status. -/
def content (o : Object) : Json.Members := o.data.filter fun e => e.1 ≠ "status"

/-- The data differ in more than the status. -/
def contentDiffers (old new : Object) : Bool :=
  old.content.length != new.content.length ||
    old.content.any fun e => !(SortedMap.get? new.data e.1).any (· == e.2)

/-- The generation after one. A generation has 64 bits: the one after the largest is the
smallest. -/
def nextGeneration (generation : Int) : Int := (generation + 1).bmod UInt64.size

/-- The object as it is stored in place of an older one, whose life it continues. -/
def succeeding (o old : Object) (version : Version) : Object :=
  let generation := old.metadata.generation.getD 1
  { o with
    metadata :=
      { o.metadata with
        uid := old.metadata.uid
        creationTimestamp := old.metadata.creationTimestamp
        generation := some (if contentDiffers old o then nextGeneration generation else generation)
        resourceVersion := some version.text } }

/-- The version that a write of the object expects: the one given or, failing that, the one the
object carries. -/
def expectation (o : Object) (given : Option Version) : Except Error (Option Version) :=
  match given with
  | some v => .ok (some v)
  | none => Version.parseOptional (o.metadata.resourceVersion.getD "")

end Object

namespace Table

/-- The object with its type filled in, if it is well formed for the kind. -/
def accept (t : Table) (o : Object) : Except Error Object := do
  let o := o.typedAs t.definition
  t.definition.validate o
  return o

/-- What a creation stores, and where. -/
def creation (t : Table) (scope : Scope) (suffix : String) (o : Object) :
    Except Error (Key × Object) := do
  let o ← t.accept o
  let o := o.named suffix
  let key ← t.definition.key o
  let o ← scope.enroll t.name o
  t.requireRunning
  if SortedMap.has t.records key then throw (.alreadyExists t.name key.text)
  return (key, o)

/-- The object that a write of the whole object or of its status makes of the current one. -/
def composed (t : Table) (subresource : Option Subresource) (current o : Object) : Object :=
  match subresource with
  | some .status => current.setStatus o.status
  | none => if t.definition.hasStatus then o.setStatus current.status else o

/-- What an update replaces, and by what. -/
def revision (t : Table) (scope : Scope) (o : Object) (expected : Option Version)
    (subresource : Option Subresource) : Except Error (Key × Record × Object) := do
  let o ← t.accept o
  let key ← t.definition.key o
  let expected ← o.expectation expected
  t.requireRunning
  let current ← t.record scope key
  t.requireVersion key expected current.version
  let next ← scope.enroll t.name (t.composed subresource current.object o)
  return (key, current, next)

/-- What a deletion removes. -/
def removal (t : Table) (scope : Scope) (key : Key) (precondition : Option Version) :
    Except Error Record := do
  t.requireRunning
  let current ← t.record scope key
  t.requireVersion key precondition current.version
  return current

/-- The keys a deletion of a collection removes, in order. -/
def removals (t : Table) (scope : Scope) (criteria : Criteria) : Except Error (List Key) := do
  t.requireDeclared criteria
  t.requireRunning
  return (t.select ⟨criteria, scope⟩).map (·.1)

end Table

namespace Focus

/-- Creates an object. -/
def create (f : Focus) (scope : Scope) (m : Moment) (o : Object) : Except Error Object × Focus :=
  match f.table.creation scope m.suffix o with
  | .error e => (.error e, f)
  | .ok (key, o) =>
    let new := o.born m f.version.next
    let records := SortedMap.insert f.table.records key ⟨new, f.version.next⟩
    (.ok new, f.commit m.now .create records (.created new))

/-- Replaces an object or its status. -/
def replace (f : Focus) (scope : Scope) (m : Moment) (verb : Verb) (o : Object)
    (expected : Option Version) (subresource : Option Subresource) :
    Except Error Object × Focus :=
  match f.table.revision scope o expected subresource with
  | .error e => (.error e, f)
  | .ok (key, current, next) =>
    let new := next.succeeding current.object f.version.next
    let records := SortedMap.insert f.table.records key ⟨new, f.version.next⟩
    (.ok new, f.commit m.now verb records (.updated current.object new))

/-- Updates an object or its status. -/
def update (f : Focus) (scope : Scope) (m : Moment) (o : Object) (expected : Option Version)
    (subresource : Option Subresource) : Except Error Object × Focus :=
  f.replace scope m .update o expected subresource

/-- The result of a patch of the current object, and the version it was computed from. -/
def patched (f : Focus) (scope : Scope) (m : Moment) (key : Key)
    (subresource : Option Subresource) (patch : Patch) : Except Error (Object × Version) := do
  let current ← f.table.record scope key
  let o ← patch.applyTo f.table.definition current.object subresource m.wall
  return (o, current.version)

/-- Patches an object or its status. The result is written back like an update that expects the
version the patch was computed from. -/
def patch (f : Focus) (scope : Scope) (m : Moment) (key : Key)
    (subresource : Option Subresource) (patch : Patch) : Except Error Object × Focus :=
  match f.patched scope m key subresource patch with
  | .error e => (.error e, f)
  | .ok (o, read) => f.replace scope m .patch o (some read) subresource

/-- Removes a record. The tombstone is the object at the version of its deletion. -/
def remove (f : Focus) (now : Nat) (key : Key) (r : Record) : Object × Focus :=
  let tombstone := r.object.stamped f.version.next
  (tombstone, f.commit now .delete (SortedMap.erase f.table.records key) (.deleted tombstone))

/-- Deletes an object. -/
def delete (f : Focus) (scope : Scope) (m : Moment) (key : Key)
    (precondition : Option Version) : Except Error Object × Focus :=
  match f.table.removal scope key precondition with
  | .error e => (.error e, f)
  | .ok r =>
    let (tombstone, f) := f.remove m.now key r
    (.ok tombstone, f)

/-- Removes the records at some keys, each as a mutation of its own. -/
def removeAll (f : Focus) (now : Nat) : List Key → List Object × Focus
  | [] => ([], f)
  | key :: keys =>
    match SortedMap.get? f.table.records key with
    | some r =>
      let (tombstone, f) := f.remove now key r
      let (tombstones, f) := removeAll f now keys
      (tombstone :: tombstones, f)
    | none => removeAll f now keys

/-- Deletes the objects that criteria select. -/
def deleteCollection (f : Focus) (scope : Scope) (m : Moment) (criteria : Criteria) :
    Except Error (List Object) × Focus :=
  match f.table.removals scope criteria with
  | .error e => (.error e, f)
  | .ok keys =>
    let (tombstones, f) := f.removeAll m.now keys
    (.ok tombstones, f)

end Focus

end ControlPlane
