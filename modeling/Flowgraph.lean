import Flowgraph.Main
import Flowgraph.Proofs.Run.Evolution
import Flowgraph.Proofs.Run.Custody
import Flowgraph.Proofs.Task.Lifetime
import Flowgraph.Proofs.Run.FailedLoad
import Flowgraph.Proofs.Graph.Stored
import Flowgraph.Proofs.Graph.Wiring
import Flowgraph.Proofs.Run.Succession
import Flowgraph.Proofs.Run.Service
import Flowgraph.Proofs.Run.Pairing
import Flowgraph.Proofs.Run.Loading
import Flowgraph.Proofs.Run.Twins
import Flowgraph.Proofs.Builtin.Uniform
import Flowgraph.Proofs.Run.Renewal
import Flowgraph.Proofs.Run.Independence
import Flowgraph.Proofs.Expression.Grammar
import Flowgraph.Proofs.Expression.Recognition
import Flowgraph.Proofs.Expression.Depth
import Flowgraph.Proofs.Json.Printing
import Flowgraph.Proofs.Template.Mentions
import Flowgraph.Proofs.Expression.Placeholders
import Flowgraph.Proofs.Node.Publishing
import Flowgraph.Proofs.Graph.Findings
import Flowgraph.Proofs.Run.Refusal
import Flowgraph.Proofs.Graph.Cycle
import Flowgraph.Proofs.Walk.Lineage
import Flowgraph.Proofs.Builtin.Passage
import Flowgraph.Proofs.Run.Clockwork
import Flowgraph.Proofs.Walk.Pursuit
import Flowgraph.Proofs.Walk.Foresight
import Flowgraph.Proofs.Walk.Course
import Flowgraph.Proofs.Walk.Detour
import Flowgraph.Proofs.Walk.Itinerary
import Flowgraph.Proofs.Run.Snapshot
import Flowgraph.Proofs.Run.Workers
import Flowgraph.Proofs.Run.Executions
import Flowgraph.Proofs.Field.Literals
import Flowgraph.Proofs.Template.Interpolation
import Flowgraph.Proofs.Store.Blobs
import Flowgraph.Proofs.Run.Persistence
import Flowgraph.Proofs.Graph.Cyclic
import Flowgraph.Proofs.Pool.Running
import Flowgraph.Proofs.Task.Timetable
import Flowgraph.Proofs.Field.Prospects
import Flowgraph.Proofs.Bus.Registrations
import Flowgraph.Proofs.Node.Registrations
import Flowgraph.Proofs.Json.Pointer
import Flowgraph.Proofs.Expression.Lexis
import Flowgraph.Proofs.Expression.Bytes
import Flowgraph.Proofs.Expression.Viable
import Flowgraph.Proofs.Expression.Faults
import Flowgraph.Proofs.Node.Reconfiguration
import Flowgraph.Proofs.Config.Sources
import Flowgraph.Proofs.Field.Offers
import Flowgraph.Proofs.Walk.Count
