import Ambient.Session.Run
import Ambient.Proofs.Agreement
import Ambient.Proofs.Dict
import Ambient.Proofs.Snapshot
import Ambient.Proofs.Action
import Ambient.Proofs.Effect
import Ambient.Proofs.Invariant
import Ambient.Proofs.MemoCoherence
import Ambient.Proofs.Isolation
import Ambient.Proofs.Writers
import Ambient.Proofs.Nested.Program
import Ambient.Proofs.Nested.Simulation
import Ambient.Proofs.Nested.Refinement
import Ambient.Proofs.SessionRuns
import Ambient.Proofs.Stack.Discipline
import Ambient.Proofs.Wire.ChildBaggage
import Ambient.Proofs.Wire.RoundTrip
import Ambient.Proofs.Report
import Ambient.Proofs.Confinement.TwoRuns
import Ambient.Proofs.Parking.Table
import Ambient.Proofs.Parking.Ledger
import Ambient.Proofs.Parking.Delivery
import Ambient.Proofs.Tags.Program
import Ambient.Proofs.Tags.Scopes
import Ambient.Proofs.Tags.Simulation
import Ambient.Proofs.Tags.Balance
import Ambient.Proofs.Tags.Published
import Ambient.Proofs.Tags.Mirror
import Ambient.Proofs.Lifecycle.Steps
import Ambient.Proofs.Wire.Hop
import Ambient.Proofs.Lifecycle.Family
import Ambient.Proofs.Lifecycle.Representation
import Ambient.Proofs.Policy.Conflicts
import Ambient.Proofs.Policy.Roots
import Ambient.Proofs.Json.Text
import Ambient.Proofs.Json.Reads
import Ambient.Proofs.Config.Document
import Ambient.Proofs.Wire.Reading
import Ambient.Proofs.Wire.View
import Ambient.Proofs.Lifecycle.Refusal
import Ambient.Proofs.Lifecycle.Closing
import Ambient.Proofs.Lifecycle.Atomicity
import Ambient.Proofs.Wire.Injection
import Ambient.Proofs.Wire.Names
import Ambient.Proofs.Wire.Locality
import Ambient.Proofs.Wire.Traceparent
import Ambient.Proofs.Wire.Shape
import Ambient.Proofs.Order.Unseen
import Ambient.Proofs.Wire.Spelling
import Ambient.Proofs.Engine.Configurations
import Ambient.Proofs.Wire.SpanIds
