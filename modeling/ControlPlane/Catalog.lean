import ControlPlane.Definition
import ControlPlane.Schema.Kinds

/-!
# The catalog of kinds

A catalog holds one definition for each group, version and kind, in the order of their first
registration, and the names by which they are found. The full name of a kind always leads to its
last definition; its short names (the name, the name in lower case, the plural) belong to the kind
that took them first.
-/

namespace ControlPlane

/-- The kinds of a store, by name. -/
structure Catalog where
  definitions : List Definition
  /-- For each name the position of a definition. -/
  names : SortedMap String Nat
deriving Repr, Inhabited

namespace Catalog

/-- The catalog without kinds. -/
def empty : Catalog := ⟨[], []⟩

/-- The names under which a kind is found besides its full name. -/
def shortNames (d : Definition) : List String := [d.name, d.name.toLower, d.kind.plural]

/-- Lets a name lead to a position, unless it already leads somewhere. -/
def reserve (position : Nat) (names : SortedMap String Nat) (name : String) :
    SortedMap String Nat :=
  if SortedMap.has names name then names else SortedMap.insert names name position

/-- Registers a kind, in place of the one with the same full name. -/
def register (c : Catalog) (d : Definition) : Catalog :=
  let known := SortedMap.get? c.names d.fullName
  let position := known.getD c.definitions.length
  { definitions := match known with
      | some position => c.definitions.set position d
      | none => c.definitions ++ [d]
    names :=
      SortedMap.insert ((shortNames d).foldl (reserve position) c.names) d.fullName position }

/-- Registers some kinds, in order. -/
def registerAll (c : Catalog) (ds : List Definition) : Catalog := ds.foldl register c

/-- The definition that a name leads to. -/
def lookup? (c : Catalog) (name : String) : Option Definition :=
  (SortedMap.get? c.names name).bind fun position => c.definitions[position]?

/-- Finds a kind by a short name or its full name. -/
def lookup (c : Catalog) (name : String) : Except Error Definition :=
  match c.lookup? name with
  | some d => .ok d
  | none => .error (.unknownKind name)

/-- The full name of a kind given by its parts. -/
def fullName (group version kind : String) : String :=
  if group.isEmpty then version ++ "/" ++ kind else group ++ "/" ++ version ++ "/" ++ kind

/-- Finds a kind by group, version and name. -/
def lookupFull (c : Catalog) (group version kind : String) : Except Error Definition :=
  c.lookup (fullName group version kind)

/-- The definitions of the kinds that every store holds unless told otherwise. -/
def standardDefinitions : List Definition :=
  [(Definition.ofKind Schema.namespaceKind).statusApart
      |>.conditionsAt "status.conditions"
      |>.listAt "spec.finalizers" .set
      |>.fieldAt "status.phase",
    (Definition.ofKind Schema.node).statusApart
      |>.conditionsAt "status.conditions"
      |>.listAt "status.addresses" (.keyed "type")
      |>.listAt "spec.podCIDRs" .set
      |>.fieldAt "spec.unschedulable",
    (Definition.ofKind Schema.pod).statusApart
      |>.conditionsAt "status.conditions"
      |>.listAt "spec.containers" (.keyed "name")
      |>.listAt "spec.initContainers" (.keyed "name")
      |>.listAt "spec.containers.ports" (.keyed "containerPort")
      |>.listAt "spec.containers.env" (.keyed "name")
      |>.listAt "spec.containers.volumeMounts" (.keyed "mountPath")
      |>.listAt "spec.volumes" (.keyed "name")
      |>.listAt "spec.imagePullSecrets" (.keyed "name")
      |>.listAt "status.containerStatuses" (.keyed "name")
      |>.listAt "status.podIPs" (.keyed "ip")
      |>.fieldsAt ["spec.nodeName", "spec.restartPolicy", "spec.schedulerName",
        "spec.serviceAccountName", "spec.hostNetwork", "status.phase", "status.podIP",
        "status.nominatedNodeName"],
    (Definition.ofKind Schema.event).fieldsAt ["involvedObject.kind",
        "involvedObject.namespace", "involvedObject.name", "involvedObject.uid",
        "involvedObject.apiVersion", "involvedObject.resourceVersion", "involvedObject.fieldPath",
        "reason", "reportingComponent", "type"]
      |>.fieldNamed "source" "source.component",
    Definition.ofKind Schema.configMap,
    (Definition.ofKind Schema.service).statusApart
      |>.conditionsAt "status.conditions"
      |>.listAt "spec.ports" (.keyed "port")
      |>.fieldsAt ["spec.type", "spec.clusterIP"],
    (Definition.ofKind Schema.lease).fieldAt "spec.holderIdentity"]

/-- The catalog of the kinds that every store holds unless told otherwise. -/
def standard : Catalog := empty.registerAll standardDefinitions

end Catalog

end ControlPlane
