import ControlPlane.Schema.Meta

/-!
# Volumes

The shapes of the volumes of a pod, one for each kind of storage.
Each shape is named after the type it describes, and its members stand in the order of their
names.
-/

namespace ControlPlane.Schema

def awsElasticBlockStoreVolumeSource : Shape := .record
  [optional "fsType" .string, optional "partition" .int32, optional "readOnly" .bool,
   defaulted "volumeID" .string]

def azureDiskVolumeSource : Shape := .record
  [optional "cachingMode" .string, defaulted "diskName" .string, defaulted "diskURI" .string,
   optional "fsType" .string, optional "kind" .string, optional "readOnly" .bool]

def azureFileVolumeSource : Shape := .record
  [optional "readOnly" .bool, defaulted "secretName" .string, defaulted "shareName" .string]

def cephFSVolumeSource : Shape := .record
  [defaulted "monitors" (.list .string), optional "path" .string, optional "readOnly" .bool,
   optional "secretFile" .string, optional "secretRef" localObjectReference,
   optional "user" .string]

def cinderVolumeSource : Shape := .record
  [optional "fsType" .string, optional "readOnly" .bool,
   optional "secretRef" localObjectReference, defaulted "volumeID" .string]

def keyToPath : Shape := .record
  [defaulted "key" .string, optional "mode" .int32, defaulted "path" .string]

def configMapVolumeSource : Shape := .record
  [optional "defaultMode" .int32, optional "items" (.list keyToPath), defaulted "name" .string,
   optional "optional" .bool]

def csiVolumeSource : Shape := .record
  [defaulted "driver" .string, optional "fsType" .string,
   optional "nodePublishSecretRef" localObjectReference, optional "readOnly" .bool,
   optional "volumeAttributes" (.map .string)]

def objectFieldSelector : Shape := .record
  [optional "apiVersion" .string, defaulted "fieldPath" .string]

def resourceFieldSelector : Shape := .record
  [optional "containerName" .string, optional "divisor" .quantity, defaulted "resource" .string]

def downwardAPIVolumeFile : Shape := .record
  [optional "fieldRef" objectFieldSelector, optional "mode" .int32, defaulted "path" .string,
   optional "resourceFieldRef" resourceFieldSelector]

def downwardAPIVolumeSource : Shape := .record
  [optional "defaultMode" .int32, optional "items" (.list downwardAPIVolumeFile)]

def emptyDirVolumeSource : Shape := .record
  [optional "medium" .string, optional "sizeLimit" .quantity]

def volumeResourceRequirements : Shape := .record
  [optional "limits" (.map .quantity), optional "requests" (.map .quantity)]

def persistentVolumeClaimSpec : Shape := .record
  [optional "accessModes" (.list .string), optional "dataSource" typedLocalObjectReference,
   optional "dataSourceRef" typedObjectReference, optional "resources" volumeResourceRequirements,
   optional "selector" labelSelector, optional "storageClassName" .string,
   optional "volumeAttributesClassName" .string, optional "volumeMode" .string,
   optional "volumeName" .string]

def persistentVolumeClaimTemplate : Shape := .record
  [optional "metadata" objectMeta, defaulted "spec" persistentVolumeClaimSpec]

def ephemeralVolumeSource : Shape := .record
  [optional "volumeClaimTemplate" persistentVolumeClaimTemplate]

def fcVolumeSource : Shape := .record
  [optional "fsType" .string, optional "lun" .int32, optional "readOnly" .bool,
   optional "targetWWNs" (.list .string), optional "wwids" (.list .string)]

def flexVolumeSource : Shape := .record
  [defaulted "driver" .string, optional "fsType" .string, optional "options" (.map .string),
   optional "readOnly" .bool, optional "secretRef" localObjectReference]

def flockerVolumeSource : Shape := .record
  [optional "datasetName" .string, optional "datasetUUID" .string]

def gcePersistentDiskVolumeSource : Shape := .record
  [optional "fsType" .string, optional "partition" .int32, defaulted "pdName" .string,
   optional "readOnly" .bool]

def gitRepoVolumeSource : Shape := .record
  [optional "directory" .string, defaulted "repository" .string, optional "revision" .string]

def glusterfsVolumeSource : Shape := .record
  [defaulted "endpoints" .string, defaulted "path" .string, optional "readOnly" .bool]

def hostPathVolumeSource : Shape := .record [defaulted "path" .string, optional "type" .string]

def imageVolumeSource : Shape := .record
  [optional "pullPolicy" .string, optional "reference" .string]

def iscsiVolumeSource : Shape := .record
  [optional "chapAuthDiscovery" .bool, optional "chapAuthSession" .bool,
   optional "fsType" .string, optional "initiatorName" .string, defaulted "iqn" .string,
   optional "iscsiInterface" .string, defaulted "lun" .int32, optional "portals" (.list .string),
   optional "readOnly" .bool, optional "secretRef" localObjectReference,
   defaulted "targetPortal" .string]

def nfsVolumeSource : Shape := .record
  [defaulted "path" .string, optional "readOnly" .bool, defaulted "server" .string]

def persistentVolumeClaimVolumeSource : Shape := .record
  [defaulted "claimName" .string, optional "readOnly" .bool]

def photonPersistentDiskVolumeSource : Shape := .record
  [optional "fsType" .string, defaulted "pdID" .string]

def portworxVolumeSource : Shape := .record
  [optional "fsType" .string, optional "readOnly" .bool, defaulted "volumeID" .string]

def clusterTrustBundleProjection : Shape := .record
  [optional "labelSelector" labelSelector, optional "name" .string, optional "optional" .bool,
   defaulted "path" .string, optional "signerName" .string]

def configMapProjection : Shape := .record
  [optional "items" (.list keyToPath), defaulted "name" .string, optional "optional" .bool]

def downwardAPIProjection : Shape := .record [optional "items" (.list downwardAPIVolumeFile)]

def secretProjection : Shape := .record
  [optional "items" (.list keyToPath), defaulted "name" .string, optional "optional" .bool]

def serviceAccountTokenProjection : Shape := .record
  [optional "audience" .string, optional "expirationSeconds" .int64, defaulted "path" .string]

def volumeProjection : Shape := .record
  [optional "clusterTrustBundle" clusterTrustBundleProjection,
   optional "configMap" configMapProjection, optional "downwardAPI" downwardAPIProjection,
   optional "secret" secretProjection,
   optional "serviceAccountToken" serviceAccountTokenProjection]

def projectedVolumeSource : Shape := .record
  [optional "defaultMode" .int32, optional "sources" (.list volumeProjection)]

def quobyteVolumeSource : Shape := .record
  [optional "group" .string, optional "readOnly" .bool, defaulted "registry" .string,
   optional "tenant" .string, optional "user" .string, defaulted "volume" .string]

def rbdVolumeSource : Shape := .record
  [optional "fsType" .string, defaulted "image" .string, optional "keyring" .string,
   defaulted "monitors" (.list .string), optional "pool" .string, optional "readOnly" .bool,
   optional "secretRef" localObjectReference, optional "user" .string]

def scaleIOVolumeSource : Shape := .record
  [optional "fsType" .string, defaulted "gateway" .string, optional "protectionDomain" .string,
   optional "readOnly" .bool, defaulted "secretRef" localObjectReference,
   optional "sslEnabled" .bool, optional "storageMode" .string, optional "storagePool" .string,
   defaulted "system" .string, optional "volumeName" .string]

def secretVolumeSource : Shape := .record
  [optional "defaultMode" .int32, optional "items" (.list keyToPath), optional "optional" .bool,
   optional "secretName" .string]

def storageOSVolumeSource : Shape := .record
  [optional "fsType" .string, optional "readOnly" .bool,
   optional "secretRef" localObjectReference, optional "volumeName" .string,
   optional "volumeNamespace" .string]

def vsphereVirtualDiskVolumeSource : Shape := .record
  [optional "fsType" .string, optional "storagePolicyID" .string,
   optional "storagePolicyName" .string, defaulted "volumePath" .string]

def volume : Shape := .record
  [optional "awsElasticBlockStore" awsElasticBlockStoreVolumeSource,
   optional "azureDisk" azureDiskVolumeSource, optional "azureFile" azureFileVolumeSource,
   optional "cephfs" cephFSVolumeSource, optional "cinder" cinderVolumeSource,
   optional "configMap" configMapVolumeSource, optional "csi" csiVolumeSource,
   optional "downwardAPI" downwardAPIVolumeSource, optional "emptyDir" emptyDirVolumeSource,
   optional "ephemeral" ephemeralVolumeSource, optional "fc" fcVolumeSource,
   optional "flexVolume" flexVolumeSource, optional "flocker" flockerVolumeSource,
   optional "gcePersistentDisk" gcePersistentDiskVolumeSource,
   optional "gitRepo" gitRepoVolumeSource, optional "glusterfs" glusterfsVolumeSource,
   optional "hostPath" hostPathVolumeSource, optional "image" imageVolumeSource,
   optional "iscsi" iscsiVolumeSource, defaulted "name" .string, optional "nfs" nfsVolumeSource,
   optional "persistentVolumeClaim" persistentVolumeClaimVolumeSource,
   optional "photonPersistentDisk" photonPersistentDiskVolumeSource,
   optional "portworxVolume" portworxVolumeSource, optional "projected" projectedVolumeSource,
   optional "quobyte" quobyteVolumeSource, optional "rbd" rbdVolumeSource,
   optional "scaleIO" scaleIOVolumeSource, optional "secret" secretVolumeSource,
   optional "storageos" storageOSVolumeSource,
   optional "vsphereVolume" vsphereVirtualDiskVolumeSource]

end ControlPlane.Schema
