import ControlPlane.Schema.Shape

/-!
# Events

The shapes of the parts of events, both of those in the core group and of those in their own group.
Each shape is named after the type it describes, and its members stand in the order of their
names.
-/

namespace ControlPlane.Schema

def eventSeries : Shape := .record
  [optional "count" .int32, optional "lastObservedTime" .microTime]

def eventSource : Shape := .record [optional "component" .string, optional "host" .string]

def notedEventSeries : Shape := .record
  [defaulted "count" .int32, mandatory "lastObservedTime" .microTime]

end ControlPlane.Schema
