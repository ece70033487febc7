import Rekuest.Interleave.Prog
import Rekuest.Interleave.System
import Rekuest.Interleave.Table
import Rekuest.Interleave.Keyed
import Rekuest.Interleave.Upserts
import Rekuest.Interleave.Wp
import Rekuest.Interleave.May
import Rekuest.Interleave.Visits
import Rekuest.Interleave.Holding
import Rekuest.Sql.Query
import Rekuest.Sql.Placeholders
import Rekuest.Interleave.Typestate
import Rekuest.Interleave.Fencing
import Rekuest.Interleave.Rely
import Rekuest.Interleave.Guarantee
import Rekuest.Interleave.Following
import Rekuest.Interleave.Duties
import Rekuest.Fallible.Fold
import Rekuest.Fallible.Attempt
import Rekuest.Coding.Words
import Rekuest.Coding.Names
import Rekuest.Replay.Log
import Rekuest.Models.Enums
import Rekuest.Models.Json
import Rekuest.Models.Definitions
import Rekuest.Models.Rows
import Rekuest.Messages
import Rekuest.Settings
import Rekuest.Liveness
import Rekuest.HigherOrder
import Rekuest.Canonical
import Rekuest.Provenance
import Rekuest.Store
import Rekuest.Transport
import Rekuest.PersistBackend
import Rekuest.Backend
import Rekuest.AgentMutations
import Rekuest.Calls
import Rekuest.Queries
import Rekuest.Signals
import Rekuest.Footprint
import Rekuest.Lease.Rows
import Rekuest.Lease.Epochs
import Rekuest.Lease.Disconnect
import Rekuest.Lease.Writers
import Rekuest.Tasks.Rows
import Rekuest.Tasks.Reports
import Rekuest.Tasks.Cascade
import Rekuest.Tasks.Assign
import Rekuest.Tasks.Virtual
import Rekuest.Tasks.Family
import Rekuest.Tasks.Fate
import Rekuest.Tasks.Terminal
import Rekuest.Tasks.Resend
import Rekuest.Tasks.Crash
import Rekuest.Tasks.Linked
import Rekuest.Tasks.Forest
import Rekuest.Tasks.Settle
import Rekuest.Tasks.Sweep
import Rekuest.Tasks.Requeue
import Rekuest.Tasks.Control
import Rekuest.Tasks.Interrupt
import Rekuest.Tasks.Feeds
import Rekuest.CallerEvents
import Rekuest.Subscriptions
import Rekuest.Subscriptions.Agents
import Rekuest.Tasks.Reference
import Rekuest.Tasks.Atomic
import Rekuest.Tasks.Executor
import Rekuest.AgentQueue
import Rekuest.Queue.Order
import Rekuest.Queue.Delivery
import Rekuest.Logic
import Rekuest.StateQueries
import Rekuest.States.TimeTravel
import Rekuest.States.Connection
import Rekuest.States.Checkout
import Rekuest.Deletion
import Rekuest.Descriptors
import Rekuest.Managers
import Rekuest.Ports
import Rekuest.Registration
import Rekuest.ImplementAgent
import Rekuest.Wrapping
import Rekuest.Projection.Coverage
import Rekuest.Projection.Arguments
import Rekuest.Registry.Steps
import Rekuest.Registry.Pointing
import Rekuest.Registry.Declarations
import Rekuest.Registry.Turns
import Rekuest.Registry.Repoint
import Rekuest.Registry.Runs
import Rekuest.Registry.Equipment
import Rekuest.Registry.Again
import Rekuest.Registry.Tenants
import Rekuest.Registry.Described
import Rekuest.Registry.Qualifiers
import Rekuest.Registry.Total
import Rekuest.Registry.FastPath
import Rekuest.Registry.TestLinks
import Rekuest.Registry.Batch
import Rekuest.Registry.Wiring
import Rekuest.Registry.Pairing
import Rekuest.Matching.Clauses
import Rekuest.Matching.Naming
import Rekuest.Matching.Forest
import Rekuest.Matching.Demands
import Rekuest.Matching.Parameters
import Rekuest.Matching.Positional
import Rekuest.Matching.Consolidated
import Rekuest.Matching.Scanner
import Rekuest.Matching.Legacy
import Rekuest.Matching.StateDemands
import Rekuest.AutoResolve
import Rekuest.AutoResolve.Account
import Rekuest.AutoResolve.Walk
import Rekuest.AutoResolve.Runs
import Rekuest.AutoResolve.Coverage
import Rekuest.MessageRouter
import Rekuest.ModelPersistBackend
import Rekuest.Consumers.AgentProtocol
import Rekuest.Consumers.Handshake
import Rekuest.Consumers.Closing
import Rekuest.Consumers.Release
import Rekuest.Consumers.Retained
import Rekuest.States.Locks
import Rekuest.Tree.Climb
import Rekuest.Provenance.Root
import Rekuest.Provenance.Keys
import Rekuest.Tasks.CallerControl
import Rekuest.Tasks.OwnWork
import Rekuest.Tasks.Redelivery
import Rekuest.Tasks.Resolution
import Rekuest.Tasks.Tenancy
import Rekuest.Tasks.Reclaim
import Rekuest.Tasks.Binding
import Rekuest.Tasks.Demanded
import Rekuest.Lease.Predicates
import Rekuest.Tasks.Silence
import Rekuest.Lease.Grace
import Rekuest.Canonical.Loads
import Rekuest.Datalayer.Requests
import Rekuest.Matching.Candidates
import Rekuest.Materialization.AllOrNothing
import Rekuest.Structures.Usages
import Rekuest.Units.Rendering
import Rekuest.Grace
import Rekuest.Timers.Misfire
