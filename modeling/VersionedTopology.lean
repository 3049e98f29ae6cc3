import VersionedTopology.Backend
import VersionedTopology.CommandLine.Execute
import VersionedTopology.CommandLine.Files
import VersionedTopology.CommandLine.Grammar
import VersionedTopology.CommandLine.Invocation
import VersionedTopology.CommandLine.Program
import VersionedTopology.CommandLine.Report
import VersionedTopology.CommandLine.Scan
import VersionedTopology.CommandLine.Session
import VersionedTopology.Constraint.Basic
import VersionedTopology.Constraint.Batch
import VersionedTopology.Constraint.Solve
import VersionedTopology.Decimal.Shortest
import VersionedTopology.Diff.Basic
import VersionedTopology.Diff.View
import VersionedTopology.Error
import VersionedTopology.History.Ledger
import VersionedTopology.History.Log
import VersionedTopology.History.Pointers
import VersionedTopology.Http.Announce
import VersionedTopology.Http.ApiKey
import VersionedTopology.Http.Client
import VersionedTopology.Http.Cors
import VersionedTopology.Http.Host
import VersionedTopology.Http.MediaType
import VersionedTopology.Http.Message
import VersionedTopology.Http.Network
import VersionedTopology.Http.Percent
import VersionedTopology.Http.Route
import VersionedTopology.Http.Server
import VersionedTopology.Http.Url
import VersionedTopology.Json.Basic
import VersionedTopology.Json.Decode
import VersionedTopology.Json.Document
import VersionedTopology.Json.Number
import VersionedTopology.Json.Printer
import VersionedTopology.Main
import VersionedTopology.Rehearsal.Basic
import VersionedTopology.Rehearsal.Report
import VersionedTopology.Replica.Basic
import VersionedTopology.Replica.Gate
import VersionedTopology.Replica.Inspect
import VersionedTopology.Replica.Task
import VersionedTopology.Replica.Workspace
import VersionedTopology.Settings.Basic
import VersionedTopology.Settings.Environment
import VersionedTopology.Settings.Wire
import VersionedTopology.Text.Base64
import VersionedTopology.Text.Blank
import VersionedTopology.Text.Printable
import VersionedTopology.Text.Unsigned
import VersionedTopology.Text.Utf8
import VersionedTopology.Toml.Document
import VersionedTopology.Toml.Lexeme
import VersionedTopology.Toml.Table
import VersionedTopology.Topology.Graph
import VersionedTopology.Topology.Id
import VersionedTopology.Trace.Entry
import VersionedTopology.Trace.Filter
import VersionedTopology.Wire.Constraint
import VersionedTopology.Wire.Diff
import VersionedTopology.Wire.ErrorBody
import VersionedTopology.Wire.Graph
import VersionedTopology.Wire.Request
import VersionedTopology.Proofs.Concurrency.AcceptedResult
import VersionedTopology.Proofs.Concurrency.AppliedBatch
import VersionedTopology.Proofs.Concurrency.CarriedBatch
import VersionedTopology.Proofs.Concurrency.Chronicle
import VersionedTopology.Proofs.Concurrency.Completed
import VersionedTopology.Proofs.Concurrency.FailedOperation
import VersionedTopology.Proofs.Concurrency.Fleet
import VersionedTopology.Proofs.Concurrency.Flight
import VersionedTopology.Proofs.Concurrency.Invariant
import VersionedTopology.Proofs.Concurrency.LateResult
import VersionedTopology.Proofs.Concurrency.Look
import VersionedTopology.Proofs.Concurrency.LostUpdate
import VersionedTopology.Proofs.Concurrency.Navigation
import VersionedTopology.Proofs.Concurrency.OrphanedPrompt
import VersionedTopology.Proofs.Concurrency.Permission
import VersionedTopology.Proofs.Concurrency.Pointers
import VersionedTopology.Proofs.Concurrency.Recorded
import VersionedTopology.Proofs.Concurrency.SingleFlight
import VersionedTopology.Proofs.Concurrency.Site
import VersionedTopology.Proofs.Concurrency.Staleness
import VersionedTopology.Proofs.Concurrency.Underway
import VersionedTopology.Proofs.Concurrency.UsableAnswer
import VersionedTopology.Proofs.Constraint.Coalescing
import VersionedTopology.Proofs.Constraint.Conforming
import VersionedTopology.Proofs.Constraint.Congruence
import VersionedTopology.Proofs.Constraint.EdgeKey
import VersionedTopology.Proofs.Constraint.Exchange
import VersionedTopology.Proofs.Constraint.Footprint
import VersionedTopology.Proofs.Constraint.Frame
import VersionedTopology.Proofs.Constraint.InSync
import VersionedTopology.Proofs.Constraint.ListProperty
import VersionedTopology.Proofs.Constraint.Portable
import VersionedTopology.Proofs.Constraint.Renaming
import VersionedTopology.Proofs.Constraint.Solve
import VersionedTopology.Proofs.Constraint.Verdict
import VersionedTopology.Proofs.Constraint.WellFormed
import VersionedTopology.Proofs.Constraint.Worked
import VersionedTopology.Proofs.Diff.Between
import VersionedTopology.Proofs.Diff.Exact
import VersionedTopology.Proofs.Diff.InSync
import VersionedTopology.Proofs.History.Forward
import VersionedTopology.Proofs.History.Ledger
import VersionedTopology.Proofs.History.Lineage
import VersionedTopology.Proofs.History.Log
import VersionedTopology.Proofs.History.Portable
import VersionedTopology.Proofs.History.Range
import VersionedTopology.Proofs.History.Replay
import VersionedTopology.Proofs.History.Requests
import VersionedTopology.Proofs.Http.Address
import VersionedTopology.Proofs.Http.Addressing
import VersionedTopology.Proofs.Http.Agreement
import VersionedTopology.Proofs.Http.Authorization
import VersionedTopology.Proofs.Http.Exchange
import VersionedTopology.Proofs.Http.Isolation
import VersionedTopology.Proofs.Http.Percent
import VersionedTopology.Proofs.Http.Reachable
import VersionedTopology.Proofs.Json.Codec
import VersionedTopology.Proofs.Json.Record
import VersionedTopology.Proofs.Json.Scan
import VersionedTopology.Proofs.Json.Shape
import VersionedTopology.Proofs.Json.Text
import VersionedTopology.Proofs.Replica.Batch
import VersionedTopology.Proofs.Replica.BatchHistory
import VersionedTopology.Proofs.Replica.Coherent
import VersionedTopology.Proofs.Replica.Effect
import VersionedTopology.Proofs.Replica.Inbox
import VersionedTopology.Proofs.Replica.Transition
import VersionedTopology.Proofs.Topology.Identifier
import VersionedTopology.Proofs.Topology.Same
import VersionedTopology.Proofs.Topology.Walk
import VersionedTopology.Proofs.Topology.WrittenForm
import VersionedTopology.Proofs.Wire.Constraint
import VersionedTopology.Proofs.Wire.Diff
import VersionedTopology.Proofs.Wire.DiffTransfer
import VersionedTopology.Proofs.Wire.Failure
import VersionedTopology.Proofs.Wire.Graph
import VersionedTopology.Proofs.Wire.Request
import VersionedTopology.Proofs.Wire.Stable
