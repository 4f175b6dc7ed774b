import ControlPlane.Schema.Volume

/-!
# Containers

The shapes of the containers of a pod and of the states they report.
Each shape is named after the type it describes, and its members stand in the order of their
names.
-/

namespace ControlPlane.Schema

def configMapKeySelector : Shape := .record
  [defaulted "key" .string, defaulted "name" .string, optional "optional" .bool]

def secretKeySelector : Shape := .record
  [defaulted "key" .string, defaulted "name" .string, optional "optional" .bool]

def envVarSource : Shape := .record
  [optional "configMapKeyRef" configMapKeySelector, optional "fieldRef" objectFieldSelector,
   optional "resourceFieldRef" resourceFieldSelector, optional "secretKeyRef" secretKeySelector]

def envVar : Shape := .record
  [defaulted "name" .string, optional "value" .string, optional "valueFrom" envVarSource]

def configMapEnvSource : Shape := .record [defaulted "name" .string, optional "optional" .bool]

def secretEnvSource : Shape := .record [defaulted "name" .string, optional "optional" .bool]

def envFromSource : Shape := .record
  [optional "configMapRef" configMapEnvSource, optional "prefix" .string,
   optional "secretRef" secretEnvSource]

def execAction : Shape := .record [optional "command" (.list .string)]

def httpHeader : Shape := .record [defaulted "name" .string, defaulted "value" .string]

def httpGetAction : Shape := .record
  [optional "host" .string, optional "httpHeaders" (.list httpHeader), optional "path" .string,
   defaulted "port" .intOrString, optional "scheme" .string]

def sleepAction : Shape := .record [defaulted "seconds" .int64]

def tcpSocketAction : Shape := .record [optional "host" .string, defaulted "port" .intOrString]

def lifecycleHandler : Shape := .record
  [optional "exec" execAction, optional "httpGet" httpGetAction, optional "sleep" sleepAction,
   optional "tcpSocket" tcpSocketAction]

def lifecycle : Shape := .record
  [optional "postStart" lifecycleHandler, optional "preStop" lifecycleHandler,
   optional "stopSignal" .string]

def grpcAction : Shape := .record [defaulted "port" .int32, optional "service" .string]

def probe : Shape := .record
  [optional "exec" execAction, optional "failureThreshold" .int32, optional "grpc" grpcAction,
   optional "httpGet" httpGetAction, optional "initialDelaySeconds" .int32,
   optional "periodSeconds" .int32, optional "successThreshold" .int32,
   optional "tcpSocket" tcpSocketAction, optional "terminationGracePeriodSeconds" .int64,
   optional "timeoutSeconds" .int32]

def containerPort : Shape := .record
  [defaulted "containerPort" .int32, optional "hostIP" .string, optional "hostPort" .int32,
   optional "name" .string, optional "protocol" .string]

def containerResizePolicy : Shape := .record
  [defaulted "resourceName" .string, defaulted "restartPolicy" .string]

def resourceClaim : Shape := .record [defaulted "name" .string, optional "request" .string]

def resourceRequirements : Shape := .record
  [optional "claims" (.list resourceClaim), optional "limits" (.map .quantity),
   optional "requests" (.map .quantity)]

def appArmorProfile : Shape := .record
  [optional "localhostProfile" .string, defaulted "type" .string]

def capabilities : Shape := .record
  [optional "add" (.list .string), optional "drop" (.list .string)]

def seLinuxOptions : Shape := .record
  [optional "level" .string, optional "role" .string, optional "type" .string,
   optional "user" .string]

def seccompProfile : Shape := .record
  [optional "localhostProfile" .string, defaulted "type" .string]

def windowsSecurityContextOptions : Shape := .record
  [optional "gmsaCredentialSpec" .string, optional "gmsaCredentialSpecName" .string,
   optional "hostProcess" .bool, optional "runAsUserName" .string]

def securityContext : Shape := .record
  [optional "allowPrivilegeEscalation" .bool, optional "appArmorProfile" appArmorProfile,
   optional "capabilities" capabilities, optional "privileged" .bool,
   optional "procMount" .string, optional "readOnlyRootFilesystem" .bool,
   optional "runAsGroup" .int64, optional "runAsNonRoot" .bool, optional "runAsUser" .int64,
   optional "seLinuxOptions" seLinuxOptions, optional "seccompProfile" seccompProfile,
   optional "windowsOptions" windowsSecurityContextOptions]

def volumeDevice : Shape := .record [defaulted "devicePath" .string, defaulted "name" .string]

def volumeMount : Shape := .record
  [defaulted "mountPath" .string, optional "mountPropagation" .string, defaulted "name" .string,
   optional "readOnly" .bool, optional "recursiveReadOnly" .string, optional "subPath" .string,
   optional "subPathExpr" .string]

def container : Shape := .record
  [optional "args" (.list .string), optional "command" (.list .string),
   optional "env" (.list envVar), optional "envFrom" (.list envFromSource),
   optional "image" .string, optional "imagePullPolicy" .string, optional "lifecycle" lifecycle,
   optional "livenessProbe" probe, defaulted "name" .string,
   optional "ports" (.list containerPort), optional "readinessProbe" probe,
   optional "resizePolicy" (.list containerResizePolicy),
   optional "resources" resourceRequirements, optional "restartPolicy" .string,
   optional "securityContext" securityContext, optional "startupProbe" probe,
   optional "stdin" .bool, optional "stdinOnce" .bool, optional "terminationMessagePath" .string,
   optional "terminationMessagePolicy" .string, optional "tty" .bool,
   optional "volumeDevices" (.list volumeDevice), optional "volumeMounts" (.list volumeMount),
   optional "workingDir" .string]

def ephemeralContainer : Shape := .record
  [optional "args" (.list .string), optional "command" (.list .string),
   optional "env" (.list envVar), optional "envFrom" (.list envFromSource),
   optional "image" .string, optional "imagePullPolicy" .string, optional "lifecycle" lifecycle,
   optional "livenessProbe" probe, defaulted "name" .string,
   optional "ports" (.list containerPort), optional "readinessProbe" probe,
   optional "resizePolicy" (.list containerResizePolicy),
   optional "resources" resourceRequirements, optional "restartPolicy" .string,
   optional "securityContext" securityContext, optional "startupProbe" probe,
   optional "stdin" .bool, optional "stdinOnce" .bool, optional "targetContainerName" .string,
   optional "terminationMessagePath" .string, optional "terminationMessagePolicy" .string,
   optional "tty" .bool, optional "volumeDevices" (.list volumeDevice),
   optional "volumeMounts" (.list volumeMount), optional "workingDir" .string]

def resourceHealth : Shape := .record [optional "health" .string, defaulted "resourceID" .string]

def resourceStatus : Shape := .record
  [defaulted "name" .string, optional "resources" (.list resourceHealth)]

def containerStateRunning : Shape := .record [optional "startedAt" .time]

def containerStateTerminated : Shape := .record
  [optional "containerID" .string, defaulted "exitCode" .int32, optional "finishedAt" .time,
   optional "message" .string, optional "reason" .string, optional "signal" .int32,
   optional "startedAt" .time]

def containerStateWaiting : Shape := .record
  [optional "message" .string, optional "reason" .string]

def containerState : Shape := .record
  [optional "running" containerStateRunning, optional "terminated" containerStateTerminated,
   optional "waiting" containerStateWaiting]

def linuxContainerUser : Shape := .record
  [defaulted "gid" .int64, optional "supplementalGroups" (.list .int64), defaulted "uid" .int64]

def containerUser : Shape := .record [optional "linux" linuxContainerUser]

def volumeMountStatus : Shape := .record
  [defaulted "mountPath" .string, defaulted "name" .string, optional "readOnly" .bool,
   optional "recursiveReadOnly" .string]

def containerStatus : Shape := .record
  [optional "allocatedResources" (.map .quantity),
   optional "allocatedResourcesStatus" (.list resourceStatus), optional "containerID" .string,
   defaulted "image" .string, defaulted "imageID" .string, optional "lastState" containerState,
   defaulted "name" .string, defaulted "ready" .bool, optional "resources" resourceRequirements,
   defaulted "restartCount" .int32, optional "started" .bool, optional "state" containerState,
   optional "stopSignal" .string, optional "user" containerUser,
   optional "volumeMounts" (.list volumeMountStatus)]

end ControlPlane.Schema
