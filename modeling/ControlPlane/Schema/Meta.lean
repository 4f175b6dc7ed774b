import ControlPlane.Schema.Shape

/-!
# Metadata and references

The shapes that every kind shares: the metadata of an object, label selectors, conditions, and
references from one object to another.
Each shape is named after the type it describes, and its members stand in the order of their
names.
-/

namespace ControlPlane.Schema

def managedFieldsEntry : Shape := .record
  [optional "apiVersion" .string, optional "fieldsType" .string, optional "fieldsV1" .any,
   optional "manager" .string, optional "operation" .string, optional "subresource" .string,
   optional "time" .time]

def ownerReference : Shape := .record
  [defaulted "apiVersion" .string, optional "blockOwnerDeletion" .bool,
   optional "controller" .bool, defaulted "kind" .string, defaulted "name" .string,
   defaulted "uid" .string]

def objectMeta : Shape := .record
  [optional "annotations" (.map .string), optional "creationTimestamp" .time,
   optional "deletionGracePeriodSeconds" .int64, optional "deletionTimestamp" .time,
   optional "finalizers" (.list .string), optional "generateName" .string,
   optional "generation" .int64, optional "labels" (.map .string),
   optional "managedFields" (.list managedFieldsEntry), optional "name" .string,
   optional "namespace" .string, optional "ownerReferences" (.list ownerReference),
   optional "resourceVersion" .string, optional "selfLink" .string, optional "uid" .string]

def labelSelectorRequirement : Shape := .record
  [defaulted "key" .string, defaulted "operator" .string, optional "values" (.list .string)]

def labelSelector : Shape := .record
  [optional "matchExpressions" (.list labelSelectorRequirement),
   optional "matchLabels" (.map .string)]

def condition : Shape := .record
  [mandatory "lastTransitionTime" .time, defaulted "message" .string,
   optional "observedGeneration" .int64, defaulted "reason" .string, defaulted "status" .string,
   defaulted "type" .string]

def localObjectReference : Shape := .record [defaulted "name" .string]

def objectReference : Shape := .record
  [optional "apiVersion" .string, optional "fieldPath" .string, optional "kind" .string,
   optional "name" .string, optional "namespace" .string, optional "resourceVersion" .string,
   optional "uid" .string]

def typedLocalObjectReference : Shape := .record
  [optional "apiGroup" .string, defaulted "kind" .string, defaulted "name" .string]

def typedObjectReference : Shape := .record
  [optional "apiGroup" .string, defaulted "kind" .string, defaulted "name" .string,
   optional "namespace" .string]

end ControlPlane.Schema
