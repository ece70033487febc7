import Mathlib.Data.Finset.Image
import Rekuest.Interleave.Table
import Rekuest.Models.Definitions

/-!
# Rekuest.Models.Rows

The rows of the database, and the database.

* `LeaseColumns`: the columns of an agent row that only lease transitions are meant to write.
* `Database`: one table for each model. Rows refer to each other by primary key; the
  identities of the authentication service, which nothing here ever changes, are stored in
  place.
-/

namespace Rekuest

open Interleave (Table)

/-- Microseconds on the application clock. -/
abbrev Time := Int

/-- A text in a column `varchar(n)`: at most `n` characters, and none of them NUL. -/
structure VarChar (n : Nat) where
  text : String
  fits : text.length ≤ n ∧ '\x00' ∉ text.toList
  deriving DecidableEq

/-- The column takes the text: beyond `n` characters it has blanks only, and no NUL is in it. -/
def VarChar.Takes (n : Nat) (text : String) : Prop :=
  (∀ c ∈ text.toList.drop n, c = ' ') ∧ '\x00' ∉ text.toList

instance (n : Nat) (text : String) : Decidable (VarChar.Takes n text) :=
  have : Decidable (∀ c ∈ text.toList.drop n, c = ' ') := List.decidableBAll _ _
  inferInstanceAs (Decidable (_ ∧ _))

theorem VarChar.fits_take {n : Nat} {text : String} (h : Takes n text) :
    (String.ofList (text.toList.take n)).length ≤ n ∧
      '\x00' ∉ (String.ofList (text.toList.take n)).toList := by
  rw [String.length_ofList, String.toList_ofList, List.length_take]
  exact ⟨Nat.min_le_left _ _, fun hin => h.2 (List.mem_of_mem_take hin)⟩

/-- The column takes the text, without the blanks that it has no room for, or refuses it. -/
def VarChar.of? (n : Nat) (text : String) : Option (VarChar n) :=
  if h : Takes n text then some ⟨String.ofList (text.toList.take n), fits_take h⟩ else none

/-- `TaskEvent.message`. -/
abbrev EventText := VarChar 30000

abbrev AgentId := Nat

abbrev TaskId := Nat

abbrev ImplementationId := Nat

abbrev ActionId := Nat

abbrev CallerId := Nat

abbrev StateId := Nat

/-- The key of a row of the sessions table. -/
abbrev SessionKey := Nat

/-- The name of a websocket connection: a fresh token, only ever compared. -/
abbrev ConnectionId := Nat

/-- The identity an executor process makes up at its start: only ever compared. -/
abbrev SessionId := Nat

structure User where
  pk : Nat
  sub : String
  deriving DecidableEq, Repr

structure Client where
  pk : Nat
  clientId : String
  deriving DecidableEq, Repr

structure Organization where
  pk : Nat
  slug : String
  deriving DecidableEq, Repr

structure Membership where
  user : User
  organization : Organization
  roles : List String
  deriving DecidableEq, Repr

structure LeaseColumns where
  leaseEpoch : Int := 0
  connected : Bool := false
  lastSeen : Option Time := none
  activeConnectionId : Option ConnectionId := none
  activeSessionId : Option SessionId := none
  deriving DecidableEq, Repr

structure Agent extends LeaseColumns where
  name : String
  app : String
  release : String
  hash : String
  kind : AgentKind := .websocket
  hookUrl : Option String := none
  hookUrlSecret : Option String := none
  blocked : Bool := false
  user : User
  client : Client
  organization : Organization
  deriving DecidableEq, Repr

structure Hook where
  kind : HookKind
  hash : String
  deriving DecidableEq, Repr

structure Task where
  implementation : Option ImplementationId
  resolution : Option Nat := none
  action : ActionId
  ephemeral : Bool := false
  hooks : List Hook := []
  reference : String
  dependency : Option String := some "general"
  dependencyMethod : Option String := none
  capture : Bool := false
  parent : Option TaskId := none
  root : Option TaskId := none
  args : Option (Dict Json) := some []
  argsHash : Option String := none
  dependencies : Dict Json := []
  caller : Option CallerId := none
  agent : AgentId
  latestEventKind : TaskEventKind
  latestInstructKind : TaskInstructKind
  isDone : Bool := false
  finishedAt : Option Time := none

structure TaskEvent where
  task : TaskId
  kind : TaskEventKind
  delegatedTo : Option TaskId := none
  returns : Option (Dict Json) := none
  progress : Option Int := none
  message : Option EventText := none

/-- One entry of a projection map: where a lower key takes its value from. -/
structure ProjectionSource where
  source : Option String := none
  key : Option String := none
  value : Option Json := none

/-- `Implementation.higher_order_config`. -/
structure HigherOrderConfig where
  bound : Dict Json := []
  argsKey : Option String := none
  argMap : Dict ProjectionSource := []
  dependencyMap : Dict ProjectionSource := []
  returnMap : Dict String := []

structure Implementation where
  interface : String
  action : ActionId
  agent : AgentId
  higherOrderFor : Option ImplementationId := none
  higherOrderConfig : HigherOrderConfig := {}
  needsToken : Bool := true
  provenanceAudience : Option (List String) := none
  effect : EffectClass := .none
  release : String := ""
  params : Dict Json := []
  tracks : List Track := []

structure Action where
  app : String := ""
  key : String
  version : String := "1"
  hash : String
  name : String := "Unnamed Action"
  description : String := ""
  pure : Bool := false
  idempotent : Bool := false
  stateful : Bool := false
  isDev : Bool := false
  /-- The services that its argument and return ports refer to. -/
  services : List String := []
  kind : ActionKind := .function
  scope : ActionScope := .globalScope
  portGroups : List Json := []
  args : List Port := []
  returns : List Port := []
  /-- How many root ports the rows of its ports were built from. -/
  argCount : Nat := 0
  returnCount : Nat := 0
  organization : Organization

/-- A row of the relational ports of an action. Rows stand in the order in which they were
created, and refer to their parent by its place in that order. -/
structure PortRow where
  parent : Option Nat
  index : Nat
  key : String
  keyPath : String
  kind : PortKind
  identifier : Option String
  compiledJsonpath : Option String
  nullable : Bool
  dimension : Option String
  deriving DecidableEq, Repr

structure Collection where
  name : String
  creator : User
  organization : Organization
  deriving DecidableEq, Repr

structure Dependency where
  implementation : ImplementationId
  key : String
  actionDemands : List ActionDemand := []
  autoResolvable : Bool := false
  appFilter : Option String := none
  minViableInstances : Option Nat := none
  maxViableInstances : Option Nat := none
  preferedInstances : Option Nat := none
  stateDemands : List StateDemand := []
  versionFilter : Option String := none
  optional : Bool := false
  description : Option String := none
  assignPolicy : AssignPolicy := .automatic
  deriving DecidableEq, Repr

/-- A tree of choices for the dependencies of an implementation. -/
structure Resolution where
  implementation : ImplementationId
  deriving DecidableEq, Repr

/-- One choice of a resolution. -/
structure ResolvedDependency where
  resolution : Nat
  dependency : Option Nat := none
  key : String
  implementation : ImplementationId
  downStreamResolution : Option Nat := none
  deriving DecidableEq, Repr

structure StateDefinition where
  name : String
  hash : String
  ports : List Port
  description : String

/-- One of the states that an agent declares. -/
structure State where
  interface : String
  agent : AgentId
  definition : Nat := 0
  key : Option String := none
  appIdentifier : Option String := none
  deriving DecidableEq, Repr

structure Lock where
  agent : AgentId
  key : String
  description : Option String := none
  holdBy : Option TaskId := none
  deriving DecidableEq, Repr

/-- One run of an agent's app, as the agent names it. -/
structure Session where
  agent : AgentId
  sessionId : String
  createdAt : Time
  deriving DecidableEq, Repr

/-- A logged change to a state. -/
structure Patch where
  state : StateId
  agent : Option AgentId
  session : Option SessionKey
  op : String
  path : String
  value : Json
  timestamp : Time
  globalRev : Int
  task : Option TaskId := none

/-- A logged value of a state. -/
structure Snapshot where
  state : StateId
  agent : Option AgentId
  session : Option SessionKey
  value : Json
  timestamp : Time
  globalRev : Int

structure Caller where
  client : Client
  user : User
  organization : Organization
  deriving DecidableEq, Repr

structure UICatalog where
  name : String
  deriving DecidableEq, Repr

structure Blok where
  name : String
  description : Option String
  creator : User
  catalog : Option Nat
  components : List Json
  demoState : Dict Json

structure BlokDependency where
  blok : Nat
  key : String
  actionDemands : List ActionDemand := []
  stateDemands : List StateDemand := []
  appFilter : Option String := none
  versionFilter : Option String := none
  deriving DecidableEq, Repr

structure MaterializedBlok where
  blok : Nat
  deriving DecidableEq, Repr

structure BlokAgentMapping where
  key : String
  agent : AgentId
  materializedBlok : Nat
  dependency : Option Nat
  deriving DecidableEq, Repr

structure Database where
  agents : Table Agent := .empty
  tasks : Table Task := .empty
  events : List TaskEvent := []
  implementations : Table Implementation := .empty
  actions : Table Action := .empty
  dependencies : Table Dependency := .empty
  callers : Table Caller := .empty
  states : Table State := .empty
  sessions : Table Session := .empty
  /-- The patches and the snapshots, in the order in which they were recorded. -/
  patches : List Patch := []
  snapshots : List Snapshot := []
  /-- The relational ports of each action. -/
  argPorts : ActionId → List PortRow := fun _ => []
  returnPorts : ActionId → List PortRow := fun _ => []
  /-- The protocols, the tested actions and the collections of each action. -/
  protocols : ActionId → List String := fun _ => []
  isTestFor : ActionId → Finset ActionId := fun _ => ∅
  collectionsOf : ActionId → Finset Nat := fun _ => ∅
  collections : Table Collection := .empty
  manipulates : ImplementationId → Finset StateId := fun _ => ∅
  resolutions : Table Resolution := .empty
  resolvedDependencies : Table ResolvedDependency := .empty
  stateDefinitions : Table StateDefinition := .empty
  locks : Table Lock := .empty
  uiCatalogs : Table UICatalog := .empty
  bloks : Table Blok := .empty
  blokDependencies : Table BlokDependency := .empty
  materializedBloks : Table MaterializedBlok := .empty
  blokAgentMappings : Table BlokAgentMapping := .empty
  memberships : List Membership := []
  /-- `pinned_by`: which user pinned which agent. -/
  pins : List (AgentId × User) := []

instance : Inhabited Database := ⟨{}⟩

namespace Database

/-- The task runs, or would run, on a higher-order implementation. -/
def IsWrapper (db : Database) (task : Task) : Prop :=
  ∃ i impl, task.implementation = some i ∧ db.implementations.get i = some impl ∧
    impl.higherOrderFor.isSome

/-- The constraint of the states table: one state for an interface of an agent. -/
def StatesUnique (db : Database) : Prop :=
  ∀ k k' s s', db.states.get k = some s → db.states.get k' = some s' → s.agent = s'.agent →
    s.interface = s'.interface → k = k'

/-- The events recorded on a task, in order. -/
def eventsOf (db : Database) (id : TaskId) : List TaskEvent :=
  db.events.filter fun e => e.task = id

end Database
end Rekuest
