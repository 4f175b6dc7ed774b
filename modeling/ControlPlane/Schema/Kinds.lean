import ControlPlane.Kind
import ControlPlane.Schema.Event
import ControlPlane.Schema.Node
import ControlPlane.Schema.Pod
import ControlPlane.Schema.Service

/-!
# The known kinds

`Kind.known` lists the kinds this library has shapes for. Two of them are named `Event`: the core
group and a group of its own each have one.
-/

namespace ControlPlane

namespace Schema

/-- Namespaces. -/
def namespaceKind : Kind where
  group := ""
  version := "v1"
  name := "Namespace"
  plural := "namespaces"
  namespaced := false
  fields := [defaulted "metadata" objectMeta, optional "spec" namespaceSpec,
    optional "status" namespaceStatus]

/-- Nodes. -/
def node : Kind where
  group := ""
  version := "v1"
  name := "Node"
  plural := "nodes"
  namespaced := false
  fields := [defaulted "metadata" objectMeta, optional "spec" nodeSpec,
    optional "status" nodeStatus]

/-- Pods. -/
def pod : Kind where
  group := ""
  version := "v1"
  name := "Pod"
  plural := "pods"
  namespaced := true
  fields := [defaulted "metadata" objectMeta, optional "spec" podSpec, optional "status" podStatus]

/-- Events of the core group. -/
def event : Kind where
  group := ""
  version := "v1"
  name := "Event"
  plural := "events"
  namespaced := true
  fields := [optional "action" .string, optional "count" .int32, optional "eventTime" .microTime,
    optional "firstTimestamp" .time, defaulted "involvedObject" objectReference,
    optional "lastTimestamp" .time, optional "message" .string, defaulted "metadata" objectMeta,
    optional "reason" .string, optional "related" objectReference,
    optional "reportingComponent" .string, optional "reportingInstance" .string,
    optional "series" eventSeries, optional "source" eventSource, optional "type" .string]

/-- Maps of configuration data. -/
def configMap : Kind where
  group := ""
  version := "v1"
  name := "ConfigMap"
  plural := "configmaps"
  namespaced := true
  fields := [optional "binaryData" (.map .base64), optional "data" (.map .string),
    optional "immutable" .bool, defaulted "metadata" objectMeta]

/-- Services. -/
def service : Kind where
  group := ""
  version := "v1"
  name := "Service"
  plural := "services"
  namespaced := true
  fields := [defaulted "metadata" objectMeta, optional "spec" serviceSpec,
    optional "status" serviceStatus]

/-- Maps of secret data. -/
def secret : Kind where
  group := ""
  version := "v1"
  name := "Secret"
  plural := "secrets"
  namespaced := true
  fields := [optional "data" (.map .base64), optional "immutable" .bool,
    defaulted "metadata" objectMeta, optional "stringData" (.map .string),
    optional "type" .string]

/-- Leases. -/
def lease : Kind where
  group := "coordination.k8s.io"
  version := "v1"
  name := "Lease"
  plural := "leases"
  namespaced := true
  fields := [defaulted "metadata" objectMeta, optional "spec" leaseSpec]

/-- Events of the group of their own. -/
def notedEvent : Kind where
  group := "events.k8s.io"
  version := "v1"
  name := "Event"
  plural := "events"
  namespaced := true
  fields := [optional "action" .string, optional "deprecatedCount" .int32,
    optional "deprecatedFirstTimestamp" .time, optional "deprecatedLastTimestamp" .time,
    optional "deprecatedSource" eventSource, optional "eventTime" .microTime,
    defaulted "metadata" objectMeta, optional "note" .string, optional "reason" .string,
    optional "regarding" objectReference, optional "related" objectReference,
    optional "reportingController" .string, optional "reportingInstance" .string,
    optional "series" notedEventSeries, optional "type" .string]

end Schema

/-- The kinds this library has shapes for. -/
def Kind.known : List Kind :=
  [Schema.namespaceKind, Schema.node, Schema.pod, Schema.event, Schema.configMap, Schema.service,
    Schema.secret, Schema.lease, Schema.notedEvent]

end ControlPlane
