import Rekuest.Registration

/-!
# Rekuest.ImplementAgent

The registration of a whole agent, and its history.

* `Maps`: the two prefetched maps of a batch. Their objects are changed in place.
* `implementAgent`: the agent row, its locks, its implementations in one batch, its states, the
  reaping of what is not declared any more, and its bloks. An error undoes all of it.
* `Call`, `runCalls`: what agents register, one after the other, and where that leads.
-/

namespace Rekuest
namespace Registration

open Fallible
open Interleave (Table)

variable (H : Hashing)

/-- Who registers: the agent's identity, and what its client is a release of. -/
structure Requester extends AgentIdentity where
  app : String
  release : String
  deriving DecidableEq, Repr

/-- A text that is not empty, or else another. -/
def orElse (text : Option String) (other : String) : String :=
  if text.getD "" = "" then other else text.getD ""

/-- The upsert of the agent row; `create_implementation` leaves the hash alone. -/
def upsertAgent (db : Database) (requester : Requester) (name : String) (hash : Option String) :
    Database × AgentId :=
  let write := fun agent : Agent =>
    { agent with
      name := name
      app := requester.app
      release := requester.release
      hash := hash.getD agent.hash }
  match db.agentOf? requester.toAgentIdentity with
  | some id => ({ db with agents := db.agents.modify id write }, id)
  | none =>
    let row := requester.toAgentIdentity.newAgent ⟨name, requester.app, requester.release⟩ ""
    ({ db with agents := db.agents.insert (write row) }, db.agents.next)

/-! ## The batch -/

/-- An implementation of the map. Once it was registered, its action is an object of the other
map, and no longer one of its own. -/
structure MappedImplementation where
  ref : ImplementationRef
  shares : Bool

structure Maps where
  actions : List ((String × String) × Instance Action) := []
  implementations : Dict MappedImplementation := []

def prefetch (db : Database) (agentId : AgentId) (agent : Agent)
    (inputs : List ImplementationInput) : Maps where
  actions := (db.actions.select fun _ row =>
    row.app = agent.app && row.organization = agent.organization &&
      (inputs.any fun input => input.definition.key = row.key) &&
      inputs.any fun input => input.definition.version = row.version).map fun r =>
        ((r.2.key, r.2.version), ⟨some r.1, r.2⟩)
  implementations := (db.implementations.select fun _ row => row.agent = agentId).map fun r =>
    (r.2.interface, ⟨r, false⟩)

/-- The object under a coordinate is this one from now on. -/
def setAction (actions : List ((String × String) × Instance Action)) (coordinate : String × String)
    (action : Instance Action) : List ((String × String) × Instance Action) :=
  if actions.any fun e => e.1 = coordinate then
    actions.map fun e => if e.1 = coordinate then (coordinate, action) else e
  else actions ++ [(coordinate, action)]

/-- The deletion of an action takes the key off the object that it was deleted through. -/
def forgetKey (actions : List ((String × String) × Instance Action)) (k : ActionId) :
    List ((String × String) × Instance Action) :=
  actions.map fun e => if e.2.pk = some k then (e.1, ⟨none, e.2.row⟩) else e

structure Batch where
  db : Database
  maps : Maps
  created : List ImplementationId := []

/-- One turn of the loop. -/
def registerMapped (agentId : AgentId) (agent : Agent) (batch : Batch)
    (input : ImplementationInput) : Except Error Batch := do
  let coordinate := (input.definition.key, input.definition.version)
  let current := Dict.get? batch.maps.implementations input.interface
  let r ← register H batch.db agentId agent input (batch.maps.actions.lookup coordinate)
    (current.map MappedImplementation.ref)
  let actions := setAction batch.maps.actions coordinate r.action
  let actions := match r.dropped with
    | some k => if current.any MappedImplementation.shares then forgetKey actions k else actions
    | none => actions
  return {
    db := r.db
    maps := {
      actions := actions
      implementations := batch.maps.implementations.set input.interface ⟨r.implementation, true⟩ }
    created := batch.created ++ [r.implementation.1] }

def registerBatch (db : Database) (agentId : AgentId) (agent : Agent)
    (inputs : List ImplementationInput) : Except Error Batch :=
  inputs.foldlM (registerMapped H agentId agent) ⟨db, prefetch db agentId agent inputs, []⟩

/-! ## Locks and states -/

def registerLock (agentId : AgentId) (db : Database) (input : LockInput) :
    Except Error Database := do
  let stored ← db.locks.updateOrCreate (.multipleObjectsReturned "Lock")
    (fun row => row.agent = agentId && row.key = input.key)
    { agent := agentId, key := input.key, description := input.description }
    fun row => { row with description := input.description }
  return { db with locks := stored.1 }

/-- `_register_state`. -/
def registerState (agentId : AgentId) (agent : Agent) (db : Database) (input : StateInput) :
    Except Error (Database × StateId) := do
  let hash := H.state input.ports
  let define := fun row : StateDefinition =>
    { row with name := input.name, ports := input.ports, description := "A state definition" }
  let definition ← db.stateDefinitions.updateOrCreate (.multipleObjectsReturned "StateDefinition")
    (fun row => row.hash = hash) (define ⟨"", hash, [], ""⟩) define
  let write := fun row : State =>
    { row with
      definition := definition.2
      key := some (orElse input.key input.interface)
      appIdentifier := some (orElse input.app agent.app) }
  let state ← db.states.updateOrCreate (.multipleObjectsReturned "State")
    (fun row => row.interface = input.interface && row.agent = agentId)
    (write { interface := input.interface, agent := agentId }) write
  return ({ db with stateDefinitions := definition.1, states := state.1 }, state.2)

def registerStates (agentId : AgentId) (agent : Agent) (db : Database) :
    List StateInput → Except Error (Database × List StateId)
  | [] => .ok (db, [])
  | input :: inputs => do
    let stored ← registerState H agentId agent db input
    let rest ← registerStates agentId agent stored.1 inputs
    return (rest.1, stored.2 :: rest.2)

/-! ## Reaping -/

/-- The agent's states that were not registered in this call. -/
def reapStates (db : Database) (agentId : AgentId) (kept : List StateId) : Database :=
  db.removeStates fun k =>
    (db.states.get k).any fun row => row.agent = agentId && !kept.contains k

def reapImplementations (db : Database) (agentId : AgentId) (kept : List ImplementationId) :
    Except Error Database :=
  db.delete (fun _ => false) fun i =>
    (db.implementations.get i).any fun row => row.agent = agentId && !kept.contains i

/-! ## Bloks -/

/-- A dependency of a blok, and the agent as what fulfils it. -/
def registerBlokDependency (agentId : AgentId) (blok : Nat) (materializedBlok : Nat)
    (db : Database) (dependency : AgentDependency) : Except Error Database := do
  let write := fun row : BlokDependency =>
    { row with
      actionDemands := dependency.actionDependencies
      stateDemands := dependency.stateDependencies
      appFilter := dependency.app
      versionFilter := dependency.version }
  let dep ← db.blokDependencies.updateOrCreate (.multipleObjectsReturned "BlokDependency")
    (fun row => row.blok = blok && row.key = dependency.key)
    (write { blok := blok, key := dependency.key }) write
  let mapping ← db.blokAgentMappings.updateOrCreate (.multipleObjectsReturned "BlokAgentMapping")
    (fun row => row.materializedBlok = materializedBlok && row.key = dependency.key &&
      row.dependency = some dep.2)
    ⟨dependency.key, agentId, materializedBlok, some dep.2⟩ fun row => { row with agent := agentId }
  -- one mapping for a key of a materialized blok
  if (db.blokAgentMappings.select fun k row => k ≠ mapping.2 &&
      row.materializedBlok = materializedBlok && row.key = dependency.key).isEmpty then
    return { db with blokDependencies := dep.1, blokAgentMappings := mapping.1 }
  else .error .integrityError

def registerBlok (requester : Requester) (agentId : AgentId) (db : Database) (input : BlokInput) :
    Except Error Database := do
  let name := orElse input.catalog "default"
  let catalog ← db.uiCatalogs.updateOrCreate (.multipleObjectsReturned "UICatalog")
    (fun row => row.name = name) ⟨name⟩ id
  -- `demo_state` is not nullable
  let demoState ← orRaise .integrityError input.demoState
  let write := fun row : Blok =>
    { row with
      components := input.components
      description := input.description
      creator := requester.user
      catalog := some catalog.2
      demoState := demoState }
  let blok ← db.bloks.updateOrCreate (.multipleObjectsReturned "Blok")
    (fun row => row.name = input.key)
    (write ⟨input.key, none, requester.user, none, [], []⟩) write
  let materialized ← db.materializedBloks.updateOrCreate
    (.multipleObjectsReturned "MaterializedBlok") (fun row => row.blok = blok.2) ⟨blok.2⟩ id
  input.dependencies.foldlM (registerBlokDependency agentId blok.2 materialized.2)
    { db with
      uiCatalogs := catalog.1
      bloks := blok.1
      materializedBloks := materialized.1 }

/-! ## The agent -/

/-- The foreign keys of the implementations, which are checked at the end of the transaction. -/
def Database.commits (db : Database) (agentId : AgentId) : Bool :=
  (db.implementations.select fun _ row =>
    row.agent = agentId && (db.actions.get row.action).isNone).isEmpty

/-- The row of the agent, and its locks. -/
def beginAgent (db : Database) (requester : Requester) (input : AgentInput) (uuid : String) :
    Except Error (Database × AgentId × Agent) := do
  let upserted := upsertAgent db requester (orElse input.name requester.client.clientId)
    (some (orElse input.hash uuid))
  let agent ← orRaise (.doesNotExist "Agent") (upserted.1.agents.get upserted.2)
  let db ← input.locks.foldlM (registerLock upserted.2) upserted.1
  return (db, upserted.2, agent)

def implementAgent (db : Database) (requester : Requester) (input : AgentInput) (uuid : String) :
    Except Error (Database × AgentId) := do
  let begun ← beginAgent db requester input uuid
  let agentId := begun.2.1
  let agent := begun.2.2
  let batch ← registerBatch H begun.1 agentId agent input.implementations
  let states ← registerStates H agentId agent batch.db input.states
  let db ← reapImplementations (reapStates states.1 agentId states.2) agentId batch.created
  let db ← input.bloks.foldlM (registerBlok requester agentId) db
  if Database.commits db agentId then return (db, agentId) else .error .integrityError

/-- The mutation that registers a single implementation. -/
def createImplementationFor (db : Database) (requester : Requester) (input : ImplementationInput) :
    Except Error Registered := do
  let upserted := upsertAgent db requester requester.client.clientId none
  let agent ← orRaise (.doesNotExist "Agent") (upserted.1.agents.get upserted.2)
  createImplementation H upserted.1 upserted.2 agent input

/-! ## Histories -/

inductive Call where
  | implementAgent (requester : Requester) (input : AgentInput) (uuid : String)
  | createImplementation (requester : Requester) (input : ImplementationInput)

/-- What a call leaves. `implement_agent` is one transaction. That of `create_implementation` begins
after the upsert of the agent, which stays when it fails. -/
def Call.run (db : Database) : Call → Database
  | .implementAgent requester input uuid =>
    match Registration.implementAgent H db requester input uuid with
    | .ok r => r.1
    | .error _ => db
  | .createImplementation requester input =>
    match createImplementationFor H db requester input with
    | .ok r => r.db
    | .error _ => (upsertAgent db requester requester.client.clientId none).1

def runCalls (db : Database) (calls : List Call) : Database := calls.foldl (Call.run H) db

end Registration
end Rekuest
