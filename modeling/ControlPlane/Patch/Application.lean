import ControlPlane.Json.MergePatch
import ControlPlane.Patch.Strategic
import ControlPlane.Patch.TransitionTime

/-!
# Applying patches

A patch is applied to an object as a whole: the document is merged into the object's, the part the
request does not address is put back, the members that identify the object are put back, the times
of conditions are settled, and the result is read as an object again.

A patch of the main resource leaves the status alone if the kind writes it apart, and a patch of the
status leaves everything else alone. A document that names a resource version applies to that
version only.
-/

namespace ControlPlane

/-- A part of an object that is written on its own. -/
inductive Subresource where
  | status
deriving DecidableEq, Repr

/-- The subresource of a name. Only kinds that write the status apart have one. -/
def Definition.subresource (d : Definition) (name : String) : Except Error Subresource :=
  if name = "status" ∧ d.hasStatus then .ok .status
  else .error (.notFound (d.name ++ " subresource") name)

/-- A patch by its strategy. -/
inductive Patch where
  | merge (document : Json)
  | strategic (document : Json)
  /-- Server-side apply. -/
  | apply
  /-- A list of edits. -/
  | edits
deriving Repr

namespace Patch

/-- The resource version that a document asks for. -/
def precondition? (document : Json) : Except Error (Option Version) :=
  match ((document.member? "metadata").bind (·.member? "resourceVersion")).bind Json.text? with
  | none => .ok none
  | some s =>
    if s.isEmpty then .ok none
    else
      match Version.parse? s with
      | some v => .ok (some v)
      | none => .error (.invalidPatch (.badVersion s))

/-- Refuses a document that asks for another version than the current one. -/
def requirePrecondition (d : Definition) (current : Object) (document : Json) :
    Except Error Unit := do
  match ← precondition? document with
  | none => return ()
  | some expected =>
    let version := (← Version.parseOptional (current.metadata.resourceVersion.getD "")).getD 0
    if expected = version then return ()
    else
      let key ← d.key current
      throw (.conflict d.name key.text expected version)

/-- The document with its status replaced or removed. -/
def putStatus (status : Option Json) : Json → Json
  | .obj members => .obj (SortedMap.set members "status" status)
  | json => json

/-- The patched document with the part that the request does not address put back. -/
def isolate (d : Definition) (subresource : Option Subresource) (earlier patched : Json) : Json :=
  match subresource with
  | some .status => putStatus (patched.member? "status") earlier
  | none => if d.hasStatus then putStatus (earlier.member? "status") patched else patched

/-- The members of the metadata that no patch changes. -/
def identityKeys : List String :=
  ["name", "namespace", "uid", "creationTimestamp", "resourceVersion", "generation"]

/-- The members with the value at a key as in other members, or without it if they have none. -/
def restore (earlier : Json.Members) (members : Json.Members) (key : String) : Json.Members :=
  SortedMap.set members key (SortedMap.get? earlier key)

/-- The patched document with the members that identify the object put back. Metadata that are not
an object are replaced. -/
def keepIdentity (earlier patched : Json) : Json :=
  match patched with
  | .obj members =>
    let members := ["apiVersion", "kind"].foldl (restore earlier.members) members
    let before := ((earlier.member? "metadata").map Json.members).getD []
    let metadata := ((SortedMap.get? members "metadata").map Json.members).getD []
    .obj (SortedMap.insert members "metadata" (.obj (identityKeys.foldl (restore before) metadata)))
  | json => json

/-- The merged document, before anything is put back. -/
def merged (d : Definition) (strategic : Bool) (earlier document : Json) : Except Error Json :=
  if strategic then (applyStrategic d earlier document).mapError .invalidPatch
  else .ok (Json.mergePatch document earlier)

/-- The result of a merge or a strategic patch. -/
def applyDocument (d : Definition) (current : Object) (strategic : Bool) (document : Json)
    (subresource : Option Subresource) (now : Timestamp) : Except Error Object := do
  if !document.isObject then throw (.invalidPatch .notAnObject)
  requirePrecondition d current document
  let earlier := current.toJson
  let patched ← merged d strategic earlier document
  let patched := keepIdentity earlier (isolate d subresource earlier patched)
  let settled := d.conditions.foldl
    (fun patched path => settleConditions earlier now (Pointer.ofPath path) patched) patched
  Object.decode settled

/-- The result of a patch of an object. -/
def applyTo (patch : Patch) (d : Definition) (current : Object)
    (subresource : Option Subresource) (now : Timestamp) : Except Error Object :=
  match patch with
  | .merge document => applyDocument d current false document subresource now
  | .strategic document => applyDocument d current true document subresource now
  | .apply => .error (.invalidPatch .applyUnsupported)
  | .edits => .error (.invalidPatch .editsUnsupported)

end Patch

end ControlPlane
