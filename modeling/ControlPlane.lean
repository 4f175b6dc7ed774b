import ControlPlane.Base64
import ControlPlane.Catalog
import ControlPlane.Client
import ControlPlane.Criteria
import ControlPlane.Decimal.Nearest
import ControlPlane.Decimal.Scaled
import ControlPlane.Decimal.Shortest
import ControlPlane.Definition
import ControlPlane.Describe
import ControlPlane.Error
import ControlPlane.FieldSelector
import ControlPlane.Json.Basic
import ControlPlane.Json.MergePatch
import ControlPlane.Json.Pointer
import ControlPlane.Json.Printer
import ControlPlane.Json.Reader
import ControlPlane.Key
import ControlPlane.Kind
import ControlPlane.Label.Parser
import ControlPlane.Label.Printer
import ControlPlane.Label.Selector
import ControlPlane.Label.Structured
import ControlPlane.Main
import ControlPlane.Metrics
import ControlPlane.Moment
import ControlPlane.Object
import ControlPlane.Options
import ControlPlane.Patch.Application
import ControlPlane.Patch.Directive
import ControlPlane.Patch.Strategic
import ControlPlane.Patch.TransitionTime
import ControlPlane.Schema.Container
import ControlPlane.Schema.Event
import ControlPlane.Schema.Kinds
import ControlPlane.Schema.Meta
import ControlPlane.Schema.Node
import ControlPlane.Schema.Pod
import ControlPlane.Schema.Service
import ControlPlane.Schema.Shape
import ControlPlane.Schema.Volume
import ControlPlane.Scope
import ControlPlane.Server
import ControlPlane.SortedMap.Basic
import ControlPlane.SortedMap.Lemmas
import ControlPlane.Store.Basic
import ControlPlane.Store.Mutation
import ControlPlane.Store.Reading
import ControlPlane.Store.Table
import ControlPlane.Text.Blank
import ControlPlane.Text.Cut
import ControlPlane.Text.Lemmas
import ControlPlane.Text.Printable
import ControlPlane.Text.Quoted
import ControlPlane.Timestamp
import ControlPlane.Version
import ControlPlane.View
import ControlPlane.Watch.Event
import ControlPlane.Watch.History
import ControlPlane.Watch.Stream
import ControlPlane.Proofs.Attempt
import ControlPlane.Proofs.Commit
import ControlPlane.Proofs.Decision
import ControlPlane.Proofs.Broadcast
import ControlPlane.Proofs.Mutation
import ControlPlane.Proofs.Run
import ControlPlane.Proofs.Ledger
import ControlPlane.Proofs.Discipline
import ControlPlane.Proofs.Stream
import ControlPlane.Proofs.Feed
import ControlPlane.Proofs.Watchers
import ControlPlane.Proofs.Opening
import ControlPlane.Proofs.Dropped
import ControlPlane.Proofs.Delivery
import ControlPlane.Proofs.Freshness
import ControlPlane.Proofs.Bare
import ControlPlane.Proofs.Independence
import ControlPlane.Proofs.Cache
import ControlPlane.Proofs.Collection
import ControlPlane.Proofs.Occupancy
import ControlPlane.Proofs.Retention
import ControlPlane.Proofs.Refusal
import ControlPlane.Proofs.Precondition
import ControlPlane.Proofs.Confinement
import ControlPlane.Proofs.Separation
import ControlPlane.Proofs.Views
import ControlPlane.Proofs.Routing
import ControlPlane.Proofs.Confidentiality
import ControlPlane.Proofs.Registration
import ControlPlane.Proofs.Clients
import ControlPlane.Proofs.Timestamps
import ControlPlane.Proofs.NormalForm
import ControlPlane.Proofs.KnownKinds
import ControlPlane.Proofs.Document
import ControlPlane.Proofs.WellFormed
import ControlPlane.Proofs.Settling
import ControlPlane.Proofs.SettleAgain
import ControlPlane.Proofs.SettledForm
import ControlPlane.Proofs.Patched
import ControlPlane.Proofs.Identity
import ControlPlane.Proofs.StatusIsolation
import ControlPlane.Proofs.Idempotence
import ControlPlane.Proofs.Holdings
import ControlPlane.Proofs.Shutdown
import ControlPlane.Proofs.Validity
import ControlPlane.Proofs.Decodable
import ControlPlane.Proofs.Lineage
import ControlPlane.Proofs.NamespaceBound
import ControlPlane.Proofs.NamespacedClients
import ControlPlane.Proofs.StrategicItems
import ControlPlane.Proofs.KeyedList
import ControlPlane.Proofs.RepeatedKeys
import ControlPlane.Proofs.StatusPutBack
import ControlPlane.Proofs.SettledLists
import ControlPlane.Proofs.ConditionTimes
import ControlPlane.Proofs.OrdinaryPatch
import ControlPlane.Proofs.Directives
import ControlPlane.Proofs.StrategicAgain
import ControlPlane.Proofs.RequestedVersion
import ControlPlane.Proofs.SelectorGrammar
import ControlPlane.Proofs.SelectorReading
import ControlPlane.Proofs.SelectorText
import ControlPlane.Proofs.FieldSelectorText
import ControlPlane.Proofs.StructuredText
import ControlPlane.Proofs.Complements
import ControlPlane.Proofs.TypedObjects
import ControlPlane.Proofs.Resolution
import ControlPlane.Proofs.DecodedForm
import ControlPlane.Proofs.Restriction
import ControlPlane.Proofs.AllowLists
import ControlPlane.Proofs.Tidy
import ControlPlane.Proofs.WrittenBack
import ControlPlane.Proofs.Counters
import ControlPlane.Proofs.Accounts
import ControlPlane.Proofs.Accounting
import ControlPlane.Proofs.Series
