import Fcfn.Lib.Walks
import Fcfn.Lib.Bfs
import Fcfn.Lib.Shortest
import Fcfn.Lib.Words
import Fcfn.Lib.Codec
import Fcfn.Lib.Sorted
import Fcfn.Lib.Stateful
import Fcfn.Lib.Runs
import Fcfn.Lib.Tables
import Fcfn.Core.Status
import Fcfn.Core.Ids
import Fcfn.Core.Canonical
import Fcfn.Model.Topology
import Fcfn.Model.Evidence
import Fcfn.Model.Policy
import Fcfn.Model.Authority
import Fcfn.Model.Boundary
import Fcfn.Model.Explanation
import Fcfn.Model.Plan
import Fcfn.Model.Canonicity
import Fcfn.Model.Attempt
import Fcfn.Model.Transition
import Fcfn.Engine.Graph
import Fcfn.Engine.Cut
import Fcfn.Engine.CutFacts
import Fcfn.Engine.Solver
import Fcfn.Engine.Residual
import Fcfn.Engine.Bound
import Fcfn.Engine.Exact
import Fcfn.Engine.ExactSearch
import Fcfn.Engine.ExactSpec
import Fcfn.Engine.Pruning
import Fcfn.Engine.Certificates
import Fcfn.Engine.Planner
import Fcfn.Engine.PlanFacts
import Fcfn.Engine.Candidates
import Fcfn.Engine.WitnessSearch
import Fcfn.Engine.ResidualPaths
import Fcfn.Engine.Recoverable
import Fcfn.Engine.World
import Fcfn.Engine.Infeasible
import Fcfn.Engine.PolicyClaims
import Fcfn.Store.Durable
import Fcfn.Runtime.Codec
import Fcfn.Runtime.State
import Fcfn.Runtime.Coordinator
import Fcfn.Runtime.Executor
import Fcfn.Runtime.Recovery
import Fcfn.Runtime.System
import Fcfn.Runtime.Outcome
import Fcfn.Runtime.Incarnation
import Fcfn.Runtime.Attempts
import Fcfn.Runtime.InFlight
import Fcfn.Runtime.Replay
import Fcfn.Runtime.Contents
import Fcfn.Runtime.Planning
import Fcfn.Runtime.PlanRecords
import Fcfn.Runtime.Identities
import Fcfn.Engine.Claimed
import Fcfn.Runtime.Applied
import Fcfn.Runtime.Decisions
import Fcfn.Runtime.Enactment
import Fcfn.Runtime.Reassertion
import Fcfn.Engine.Insertion
import Fcfn.Engine.Monotone
import Fcfn.Runtime.Authorizations
import Fcfn.Runtime.Checkpoints
import Fcfn.Runtime.Contradictions
import Fcfn.Runtime.Startup
import Fcfn.Lib.Files
import Fcfn.Store.Checksum
import Fcfn.Store.Corruption
import Fcfn.Store.TornTail
import Fcfn.Store.Tails
import Fcfn.Store.FirstOpen
import Fcfn.Store.Retention
import Fcfn.Store.Locking
import Fcfn.Runtime.Documents
import Fcfn.Net.Frame
import Fcfn.Net.Payloads
import Fcfn.Net.FrameStream
import Fcfn.Net.Session
import Fcfn.Net.Documents
import Fcfn.Net.Messages
import Fcfn.Net.Admission
import Fcfn.Net.Chunking
import Fcfn.Net.Dispatch
import Fcfn.Net.Responses
import Fcfn.Lib.Shared
import Fcfn.Net.Client
import Fcfn.Net.Exchange
import Fcfn.Ctl.Commands
import Fcfn.Ctl.ConfigText
import Fcfn.Ctl.ConfigFiles
import Fcfn.Ctl.ConfigNumbers
import Fcfn.Ctl.Verification
import Fcfn.Runtime.Epochs
import Fcfn.Runtime.Fencing
import Fcfn.Runtime.Derived
import Fcfn.Runtime.Transitions
import Fcfn.Runtime.InForce
import Fcfn.Runtime.Ingestion
import Fcfn.Runtime.Inputs
import Fcfn.Runtime.Published
import Fcfn.Runtime.Observed
import Fcfn.Model.Observations
import Fcfn.Lib.Deletion
import Fcfn.Engine.Instances
import Fcfn.Engine.Heuristic
import Fcfn.Engine.Witnesses
import Fcfn.Engine.Budgets
import Fcfn.Engine.Necessity
import Fcfn.Engine.Reordering
import Fcfn.Lib.Json
import Fcfn.Lib.Progress
import Fcfn.Net.Passes
import Fcfn.Net.Links
import Fcfn.Net.Linearization
import Fcfn.Net.Progress
import Fcfn.Net.JsonWriter
import Fcfn.Net.Rendered
import Fcfn.Ctl.Fields
import Fcfn.Ctl.Scenario
import Fcfn.Ctl.Expectations
import Fcfn.Ctl.Knowledge
import Fcfn.Ctl.Grants
