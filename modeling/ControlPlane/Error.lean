import ControlPlane.Json.Printer
import ControlPlane.Text.Cut
import ControlPlane.Text.Quoted
import ControlPlane.Version

/-!
# Errors

An error is the cause of a refused request. Its message, its status code and the status document a
transport answers with are functions of it.

The causes of invalid objects, patches and selectors each form a type of their own. A fault that is
found outside this library is given by its description.
-/

namespace ControlPlane

open Text (quoted)

/-- Why an object is refused. -/
inductive ObjectFault where
  /-- The document is not a JSON object. -/
  | notAnObject
  /-- The document has not the shape of an object. -/
  | undecodable
  /-- The object has not the shape of its kind. -/
  | undecodableAs (kind name : String)
  /-- The object is of another type than the table it is written to. -/
  | wrongType (apiVersion kind actualApiVersion actualKind : String)
  /-- The object has no name. -/
  | nameMissing (kind : String)
  /-- An object of a namespaced kind has no namespace. -/
  | namespaceMissing (kind name : String)
  /-- An object of a cluster-scoped kind has a namespace. -/
  | namespaceGiven (kind name ns : String)
  /-- The text is no resource version. -/
  | badVersion (text : String)
  /-- The object names another namespace than the request. -/
  | otherNamespace (actual requested : String)
  /-- The object has another name than the request. -/
  | otherName (actual requested : String)
  /-- A fault given by its description. -/
  | described (text : String)
deriving DecidableEq, Repr

namespace ObjectFault

/-- The description of a fault. A shape is described by a fixed text. -/
def text : ObjectFault → String
  | notAnObject => "object must be a JSON object"
  | undecodable => "<decode error>"
  | undecodableAs kind name => kind ++ " " ++ quoted name ++ ": <decode error>"
  | wrongType apiVersion kind actualApiVersion actualKind =>
    "expected " ++ apiVersion ++ "/" ++ kind ++ ", got " ++ actualApiVersion ++ "/" ++ actualKind
  | nameMissing kind => kind ++ ": metadata.name is required"
  | namespaceMissing kind name => kind ++ " " ++ quoted name ++ ": metadata.namespace is required"
  | namespaceGiven kind name ns =>
    kind ++ " " ++ quoted name ++ " is cluster-scoped but has namespace " ++ quoted ns
  | badVersion text => "invalid resource version: " ++ quoted text
  | otherNamespace actual requested =>
    "the namespace of the object (" ++ actual ++
      ") does not match the namespace of the request (" ++ requested ++ ")"
  | otherName actual requested =>
    "the name of the object (" ++ actual ++ ") does not match the name of the request (" ++
      requested ++ ")"
  | described text => text

end ObjectFault

/-- Why a patch is refused. -/
inductive PatchFault where
  /-- Server-side apply is not a strategy of this store. -/
  | applyUnsupported
  /-- A list of edits is not a strategy of this store. -/
  | editsUnsupported
  /-- The document is not a JSON object. -/
  | notAnObject
  /-- The document names a resource version that is none. -/
  | badVersion (text : String)
  /-- The document deletes the whole object. -/
  | deletesObject
  /-- The value of a directive is not one of the known ones. -/
  | unknownDirective (value : Json)
  /-- The values to be deleted from a set do not form a list. -/
  | deletionsNotAList (path field : String)
  /-- An element of a keyed list is not an object. -/
  | elementNotAnObject (path key : String)
  /-- An element of a keyed list does not have the key. -/
  | elementWithoutKey (path key : String)
  /-- A fault given by its description. -/
  | described (text : String)
deriving Repr

namespace PatchFault

/-- The description of a fault. -/
def text : PatchFault → String
  | applyUnsupported => "server-side apply is not supported"
  | editsUnsupported => "JSON patches are not supported"
  | notAnObject => "patch document must be a JSON object"
  | badVersion text => "invalid object: " ++ (ObjectFault.badVersion text).text
  | deletesObject => "patch must not delete the object"
  | unknownDirective value => "unknown $patch directive: " ++ value.text
  | deletionsNotAList path field =>
    path ++ ": $deleteFromPrimitiveList/" ++ field ++ " must be a list"
  | elementNotAnObject path key =>
    path ++ ": list elements must be objects keyed by " ++ quoted key
  | elementWithoutKey path key => path ++ ": element is missing merge key " ++ quoted key
  | described text => text

end PatchFault

/-- Why a selector is refused. -/
inductive SelectorFault where
  /-- A parenthesis has no partner. -/
  | unbalanced (selector : String)
  /-- A term of a label selector is not a requirement. -/
  | labelTerm (term : String)
  /-- The operator of a structured requirement is unknown. -/
  | unknownOperator (operator key : String)
  /-- A term of a field selector has no operator. -/
  | fieldTerm (term : String)
  /-- A term of a field selector has no well-formed path. -/
  | fieldPath (term : String)
  /-- The kind does not declare the field. -/
  | unknownField (path : String)
  /-- A fault given by its description. -/
  | described (text : String)
deriving DecidableEq, Repr

namespace SelectorFault

/-- The description of a fault. -/
def text : SelectorFault → String
  | unbalanced selector => "unbalanced parentheses in " ++ quoted selector
  | labelTerm term => "invalid label requirement: " ++ quoted term
  | unknownOperator operator key =>
    "unsupported operator " ++ quoted operator ++ " for key " ++ quoted key
  | fieldTerm term => "invalid field requirement: " ++ quoted term
  | fieldPath term => "invalid field path in " ++ quoted term
  | unknownField path => "field label not supported: " ++ path
  | described text => text

end SelectorFault

/-- Why a write lies outside of a view. -/
inductive ViewFault where
  /-- The object is labeled as belonging to another view. -/
  | otherLabel (kind label actual view : String)
  /-- The namespace is not one of the view's. -/
  | otherNamespace (ns view : String)
  /-- A fault given by its description. -/
  | described (text : String)
deriving DecidableEq, Repr

namespace ViewFault

/-- The description of a fault. -/
def text : ViewFault → String
  | otherLabel kind label actual view =>
    kind ++ " is labeled " ++ label ++ "=" ++ actual ++ ", outside of view " ++ view
  | otherNamespace ns view => "namespace " ++ quoted ns ++ " is outside of view " ++ view
  | described text => text

end ViewFault

/-- The cause of a refused request. -/
inductive Error where
  /-- There is no visible object of this key; also a subresource or a view that does not exist. -/
  | notFound (kind key : String)
  | alreadyExists (kind key : String)
  /-- A conditional write expected another version than the current one. -/
  | conflict (kind key : String) (expected current : Version)
  /-- The changes after the requested version are no longer held. -/
  | gone (kind : String) (requested oldest : Version)
  | invalidPatch (fault : PatchFault)
  | invalid (fault : ObjectFault)
  | invalidSelector (fault : SelectorFault)
  | forbidden (fault : ViewFault)
  | unknownKind (name : String)
  | shuttingDown
deriving Repr

namespace Error

/-- The message of an error. -/
def message : Error → String
  | notFound kind key => kind ++ " " ++ quoted key ++ " not found"
  | alreadyExists kind key => kind ++ " " ++ quoted key ++ " already exists"
  | conflict kind key expected current =>
    "operation cannot be fulfilled on " ++ kind ++ " " ++ quoted key ++ ": resource version " ++
      expected.text ++ " does not match " ++ current.text
  | gone _ requested oldest =>
    "too old resource version: " ++ requested.text ++ " (" ++ oldest.text ++ ")"
  | invalidPatch fault => "invalid patch: " ++ fault.text
  | invalid fault => "invalid object: " ++ fault.text
  | invalidSelector fault => "invalid selector: " ++ fault.text
  | forbidden fault => "forbidden: " ++ fault.text
  | unknownKind name => "unknown resource kind " ++ quoted name
  | shuttingDown => "server is shutting down"

/-- The HTTP status code a transport answers with. -/
def code : Error → Nat
  | notFound .. | unknownKind _ => 404
  | alreadyExists .. | conflict .. => 409
  | invalid _ => 422
  | invalidPatch _ | invalidSelector _ => 400
  | gone .. => 410
  | forbidden _ => 403
  | shuttingDown => 503

/-- The reason in the status document. -/
def reason : Error → String
  | notFound .. | unknownKind _ => "NotFound"
  | alreadyExists .. => "AlreadyExists"
  | conflict .. => "Conflict"
  | gone .. => "Expired"
  | invalid _ => "Invalid"
  | invalidPatch _ | invalidSelector _ => "BadRequest"
  | forbidden _ => "Forbidden"
  | shuttingDown => "ServiceUnavailable"

/-- The kind and the name of the object an error is about: the name is what follows the last slash
of the key. -/
def subject? : Error → Option (String × String)
  | notFound kind key | alreadyExists kind key | conflict kind key _ _ =>
    some (kind, String.ofList ((Text.splitAt '/' key.toList).getLast?.getD []))
  | _ => none

/-- The status document a transport answers with. -/
def status (e : Error) : Json :=
  let details := match e.subject? with
    | some (kind, name) => [("details", .ofMembers [("kind", .str kind), ("name", .str name)])]
    | none => []
  .ofMembers (details ++ [
    ("apiVersion", .str "v1"), ("kind", .str "Status"), ("metadata", .obj []),
    ("code", .int e.code), ("message", .str e.message), ("reason", .str e.reason),
    ("status", .str "Failure")])

/-- The error says that something does not exist. -/
def isNotFound : Error → Bool
  | notFound .. => true
  | _ => false

/-- The error is a failed precondition. -/
def isConflict : Error → Bool
  | conflict .. => true
  | _ => false

/-- The error says that a watch cannot resume from the version it asked for. -/
def isGone : Error → Bool
  | gone .. => true
  | _ => false

end Error

/-- Reads a resource version. -/
def Version.parse (s : String) : Except Error Version :=
  match parse? s with
  | some v => .ok v
  | none => .error (.invalid (.badVersion s))

/-- Reads a resource version that may be left out as the empty text. -/
def Version.parseOptional (s : String) : Except Error (Option Version) :=
  if s.isEmpty then .ok none else (parse s).map some

/-- Why the server ended a watch. A watch that its consumer stopped ends without a reason. -/
inductive EndReason where
  /-- The watch reached the end of its lifetime. -/
  | expired
  /-- The queue was full because the consumer fell behind. -/
  | overflowed
  | shuttingDown
deriving DecidableEq, Repr

namespace EndReason

/-- The word for a reason, in metrics and answers. -/
def word : EndReason → String
  | expired => "expired"
  | overflowed => "overflowed"
  | shuttingDown => "shutdown"

/-- The message of a reason. -/
def message : EndReason → String
  | expired => "watch expired"
  | overflowed => "watch queue overflowed"
  | shuttingDown => "server is shutting down"

end EndReason

end ControlPlane
