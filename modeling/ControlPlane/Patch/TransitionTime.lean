import ControlPlane.Json.Pointer
import ControlPlane.Timestamp

/-!
# Transition times of conditions

A condition has a type, a status and the time of its last transition. After a patch

* a condition whose status is the one it had before keeps its time, whatever the patch supplied;
* a condition whose status is another one gets the time of the patch;
* a condition of a new type keeps the time it was given, or gets the time of the patch.
-/

namespace ControlPlane.Patch

/-- The member that holds the time. -/
def transitionKey : String := "lastTransitionTime"

/-- The time of a condition, if it has one that is not `null`. -/
def transitionTime? (condition : Json) : Option Json :=
  (condition.member? transitionKey).filter (!·.isNull)

/-- Two optional values are equal. -/
def sameOption (a b : Option Json) : Bool :=
  match a, b with
  | some a, some b => a == b
  | none, none => true
  | _, _ => false

/-- The first of the earlier conditions that has the type of a condition. -/
def prior? (previous : List Json) (condition : Json) : Option Json :=
  (condition.member? "type").bind fun type =>
    previous.find? fun p => (p.member? "type").any (· == type)

/-- The time that a condition gets; none if it is left as it is. -/
def newTime? (previous : List Json) (now : Timestamp) (condition : Json) : Option Json :=
  let nowText := Json.str now.seconds
  match prior? previous condition with
  | some prior =>
    if sameOption (prior.member? "status") (condition.member? "status") then transitionTime? prior
    else some nowText
  | none => if (transitionTime? condition).isSome then none else some nowText

/-- A condition with the time it gets. Only objects are conditions. -/
def settleCondition (previous : List Json) (now : Timestamp) (condition : Json) : Json :=
  match condition with
  | .obj members =>
    match newTime? previous now condition with
    | some time => .obj (SortedMap.insert members transitionKey time)
    | none => condition
  | _ => condition

/-- The patched document with the times of the conditions at a pointer settled. -/
def settleConditions (earlier : Json) (now : Timestamp) (pointer : Pointer) (patched : Json) :
    Json :=
  let previous := ((earlier.at? pointer).bind Json.items?).getD []
  patched.modifyAt (fun value => match value with
    | .arr items => .arr (items.map (settleCondition previous now))
    | value => value) pointer

end ControlPlane.Patch
