import ControlPlane.Schema.Container
import ControlPlane.Schema.Meta
import ControlPlane.Schema.Volume

/-!
# Pods

The shapes of what a pod asks for and of what it reports.
Each shape is named after the type it describes, and its members stand in the order of their
names.
-/

namespace ControlPlane.Schema

def nodeSelectorRequirement : Shape := .record
  [defaulted "key" .string, defaulted "operator" .string, optional "values" (.list .string)]

def nodeSelectorTerm : Shape := .record
  [optional "matchExpressions" (.list nodeSelectorRequirement),
   optional "matchFields" (.list nodeSelectorRequirement)]

def preferredSchedulingTerm : Shape := .record
  [defaulted "preference" nodeSelectorTerm, defaulted "weight" .int32]

def nodeSelector : Shape := .record [defaulted "nodeSelectorTerms" (.list nodeSelectorTerm)]

def nodeAffinity : Shape := .record
  [optional "preferredDuringSchedulingIgnoredDuringExecution" (.list preferredSchedulingTerm),
   optional "requiredDuringSchedulingIgnoredDuringExecution" nodeSelector]

def podAffinityTerm : Shape := .record
  [optional "labelSelector" labelSelector, optional "matchLabelKeys" (.list .string),
   optional "mismatchLabelKeys" (.list .string), optional "namespaceSelector" labelSelector,
   optional "namespaces" (.list .string), defaulted "topologyKey" .string]

def weightedPodAffinityTerm : Shape := .record
  [defaulted "podAffinityTerm" podAffinityTerm, defaulted "weight" .int32]

def podAffinity : Shape := .record
  [optional "preferredDuringSchedulingIgnoredDuringExecution" (.list weightedPodAffinityTerm),
   optional "requiredDuringSchedulingIgnoredDuringExecution" (.list podAffinityTerm)]

def podAntiAffinity : Shape := .record
  [optional "preferredDuringSchedulingIgnoredDuringExecution" (.list weightedPodAffinityTerm),
   optional "requiredDuringSchedulingIgnoredDuringExecution" (.list podAffinityTerm)]

def affinity : Shape := .record
  [optional "nodeAffinity" nodeAffinity, optional "podAffinity" podAffinity,
   optional "podAntiAffinity" podAntiAffinity]

def podDNSConfigOption : Shape := .record [optional "name" .string, optional "value" .string]

def podDNSConfig : Shape := .record
  [optional "nameservers" (.list .string), optional "options" (.list podDNSConfigOption),
   optional "searches" (.list .string)]

def hostAlias : Shape := .record [optional "hostnames" (.list .string), defaulted "ip" .string]

def podOS : Shape := .record [defaulted "name" .string]

def podReadinessGate : Shape := .record [defaulted "conditionType" .string]

def podResourceClaim : Shape := .record
  [defaulted "name" .string, optional "resourceClaimName" .string,
   optional "resourceClaimTemplateName" .string]

def podSchedulingGate : Shape := .record [defaulted "name" .string]

def sysctl : Shape := .record [defaulted "name" .string, defaulted "value" .string]

def podSecurityContext : Shape := .record
  [optional "appArmorProfile" appArmorProfile, optional "fsGroup" .int64,
   optional "fsGroupChangePolicy" .string, optional "runAsGroup" .int64,
   optional "runAsNonRoot" .bool, optional "runAsUser" .int64,
   optional "seLinuxChangePolicy" .string, optional "seLinuxOptions" seLinuxOptions,
   optional "seccompProfile" seccompProfile, optional "supplementalGroups" (.list .int64),
   optional "supplementalGroupsPolicy" .string, optional "sysctls" (.list sysctl),
   optional "windowsOptions" windowsSecurityContextOptions]

def toleration : Shape := .record
  [optional "effect" .string, optional "key" .string, optional "operator" .string,
   optional "tolerationSeconds" .int64, optional "value" .string]

def topologySpreadConstraint : Shape := .record
  [optional "labelSelector" labelSelector, optional "matchLabelKeys" (.list .string),
   defaulted "maxSkew" .int32, optional "minDomains" .int32,
   optional "nodeAffinityPolicy" .string, optional "nodeTaintsPolicy" .string,
   defaulted "topologyKey" .string, defaulted "whenUnsatisfiable" .string]

def podSpec : Shape := .record
  [optional "activeDeadlineSeconds" .int64, optional "affinity" affinity,
   optional "automountServiceAccountToken" .bool, defaulted "containers" (.list container),
   optional "dnsConfig" podDNSConfig, optional "dnsPolicy" .string,
   optional "enableServiceLinks" .bool, optional "ephemeralContainers" (.list ephemeralContainer),
   optional "hostAliases" (.list hostAlias), optional "hostIPC" .bool,
   optional "hostNetwork" .bool, optional "hostPID" .bool, optional "hostUsers" .bool,
   optional "hostname" .string, optional "imagePullSecrets" (.list localObjectReference),
   optional "initContainers" (.list container), optional "nodeName" .string,
   optional "nodeSelector" (.map .string), optional "os" podOS,
   optional "overhead" (.map .quantity), optional "preemptionPolicy" .string,
   optional "priority" .int32, optional "priorityClassName" .string,
   optional "readinessGates" (.list podReadinessGate),
   optional "resourceClaims" (.list podResourceClaim), optional "resources" resourceRequirements,
   optional "restartPolicy" .string, optional "runtimeClassName" .string,
   optional "schedulerName" .string, optional "schedulingGates" (.list podSchedulingGate),
   optional "securityContext" podSecurityContext, optional "serviceAccount" .string,
   optional "serviceAccountName" .string, optional "setHostnameAsFQDN" .bool,
   optional "shareProcessNamespace" .bool, optional "subdomain" .string,
   optional "terminationGracePeriodSeconds" .int64, optional "tolerations" (.list toleration),
   optional "topologySpreadConstraints" (.list topologySpreadConstraint),
   optional "volumes" (.list volume)]

def podCondition : Shape := .record
  [optional "lastProbeTime" .time, optional "lastTransitionTime" .time,
   optional "message" .string, optional "observedGeneration" .int64, optional "reason" .string,
   defaulted "status" .string, defaulted "type" .string]

def hostIP : Shape := .record [defaulted "ip" .string]

def podIP : Shape := .record [defaulted "ip" .string]

def podResourceClaimStatus : Shape := .record
  [defaulted "name" .string, optional "resourceClaimName" .string]

def podStatus : Shape := .record
  [optional "conditions" (.list podCondition),
   optional "containerStatuses" (.list containerStatus),
   optional "ephemeralContainerStatuses" (.list containerStatus), optional "hostIP" .string,
   optional "hostIPs" (.list hostIP), optional "initContainerStatuses" (.list containerStatus),
   optional "message" .string, optional "nominatedNodeName" .string,
   optional "observedGeneration" .int64, optional "phase" .string, optional "podIP" .string,
   optional "podIPs" (.list podIP), optional "qosClass" .string, optional "reason" .string,
   optional "resize" .string, optional "resourceClaimStatuses" (.list podResourceClaimStatus),
   optional "startTime" .time]

end ControlPlane.Schema
