import ControlPlane.Schema.Meta

/-!
# Services and leases

The shapes of services and leases.
Each shape is named after the type it describes, and its members stand in the order of their
names.
-/

namespace ControlPlane.Schema

def servicePort : Shape := .record
  [optional "appProtocol" .string, optional "name" .string, optional "nodePort" .int32,
   defaulted "port" .int32, optional "protocol" .string, optional "targetPort" .intOrString]

def clientIPConfig : Shape := .record [optional "timeoutSeconds" .int32]

def sessionAffinityConfig : Shape := .record [optional "clientIP" clientIPConfig]

def serviceSpec : Shape := .record
  [optional "allocateLoadBalancerNodePorts" .bool, optional "clusterIP" .string,
   optional "clusterIPs" (.list .string), optional "externalIPs" (.list .string),
   optional "externalName" .string, optional "externalTrafficPolicy" .string,
   optional "healthCheckNodePort" .int32, optional "internalTrafficPolicy" .string,
   optional "ipFamilies" (.list .string), optional "ipFamilyPolicy" .string,
   optional "loadBalancerClass" .string, optional "loadBalancerIP" .string,
   optional "loadBalancerSourceRanges" (.list .string), optional "ports" (.list servicePort),
   optional "publishNotReadyAddresses" .bool, optional "selector" (.map .string),
   optional "sessionAffinity" .string, optional "sessionAffinityConfig" sessionAffinityConfig,
   optional "trafficDistribution" .string, optional "type" .string]

def portStatus : Shape := .record
  [optional "error" .string, defaulted "port" .int32, defaulted "protocol" .string]

def loadBalancerIngress : Shape := .record
  [optional "hostname" .string, optional "ip" .string, optional "ipMode" .string,
   optional "ports" (.list portStatus)]

def loadBalancerStatus : Shape := .record [optional "ingress" (.list loadBalancerIngress)]

def serviceStatus : Shape := .record
  [optional "conditions" (.list condition), optional "loadBalancer" loadBalancerStatus]

def leaseSpec : Shape := .record
  [optional "acquireTime" .microTime, optional "holderIdentity" .string,
   optional "leaseDurationSeconds" .int32, optional "leaseTransitions" .int32,
   optional "preferredHolder" .string, optional "renewTime" .microTime,
   optional "strategy" .string]

end ControlPlane.Schema
