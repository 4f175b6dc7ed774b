import ControlPlane.Schema.Shape

/-!
# Nodes and namespaces

The shapes of what nodes and namespaces ask for and of what they report.
Each shape is named after the type it describes, and its members stand in the order of their
names.
-/

namespace ControlPlane.Schema

def configMapNodeConfigSource : Shape := .record
  [defaulted "kubeletConfigKey" .string, defaulted "name" .string, defaulted "namespace" .string,
   optional "resourceVersion" .string, optional "uid" .string]

def nodeConfigSource : Shape := .record [optional "configMap" configMapNodeConfigSource]

def taint : Shape := .record
  [defaulted "effect" .string, defaulted "key" .string, optional "timeAdded" .time,
   optional "value" .string]

def nodeSpec : Shape := .record
  [optional "configSource" nodeConfigSource, optional "externalID" .string,
   optional "podCIDR" .string, optional "podCIDRs" (.list .string), optional "providerID" .string,
   optional "taints" (.list taint), optional "unschedulable" .bool]

def nodeAddress : Shape := .record [defaulted "address" .string, defaulted "type" .string]

def nodeCondition : Shape := .record
  [optional "lastHeartbeatTime" .time, optional "lastTransitionTime" .time,
   optional "message" .string, optional "reason" .string, defaulted "status" .string,
   defaulted "type" .string]

def nodeConfigStatus : Shape := .record
  [optional "active" nodeConfigSource, optional "assigned" nodeConfigSource,
   optional "error" .string, optional "lastKnownGood" nodeConfigSource]

def daemonEndpoint : Shape := .record [defaulted "Port" .int32]

def nodeDaemonEndpoints : Shape := .record [optional "kubeletEndpoint" daemonEndpoint]

def nodeFeatures : Shape := .record [optional "supplementalGroupsPolicy" .bool]

def containerImage : Shape := .record
  [optional "names" (.list .string), optional "sizeBytes" .int64]

def nodeSwapStatus : Shape := .record [optional "capacity" .int64]

def nodeSystemInfo : Shape := .record
  [defaulted "architecture" .string, defaulted "bootID" .string,
   defaulted "containerRuntimeVersion" .string, defaulted "kernelVersion" .string,
   defaulted "kubeProxyVersion" .string, defaulted "kubeletVersion" .string,
   defaulted "machineID" .string, defaulted "operatingSystem" .string,
   defaulted "osImage" .string, optional "swap" nodeSwapStatus, defaulted "systemUUID" .string]

def nodeRuntimeHandlerFeatures : Shape := .record
  [optional "recursiveReadOnlyMounts" .bool, optional "userNamespaces" .bool]

def nodeRuntimeHandler : Shape := .record
  [optional "features" nodeRuntimeHandlerFeatures, optional "name" .string]

def attachedVolume : Shape := .record [defaulted "devicePath" .string, defaulted "name" .string]

def nodeStatus : Shape := .record
  [optional "addresses" (.list nodeAddress), optional "allocatable" (.map .quantity),
   optional "capacity" (.map .quantity), optional "conditions" (.list nodeCondition),
   optional "config" nodeConfigStatus, optional "daemonEndpoints" nodeDaemonEndpoints,
   optional "features" nodeFeatures, optional "images" (.list containerImage),
   optional "nodeInfo" nodeSystemInfo, optional "phase" .string,
   optional "runtimeHandlers" (.list nodeRuntimeHandler),
   optional "volumesAttached" (.list attachedVolume), optional "volumesInUse" (.list .string)]

def namespaceSpec : Shape := .record [optional "finalizers" (.list .string)]

def namespaceCondition : Shape := .record
  [optional "lastTransitionTime" .time, optional "message" .string, optional "reason" .string,
   defaulted "status" .string, defaulted "type" .string]

def namespaceStatus : Shape := .record
  [optional "conditions" (.list namespaceCondition), optional "phase" .string]

end ControlPlane.Schema
