import Rekuest.Deletion
import Rekuest.Descriptors
import Rekuest.Ports

/-!
# Rekuest.Registration

The registration of one implementation and of its action, in the order of the source.

* `Instance`: an object of the ORM: the row as it was read or last written, and its primary key.
* `register`: the body of `_create_implementation`, for the action and the implementation that
  were looked up.
* `createImplementation`: the same with one lookup for each.
-/

namespace Rekuest

/-- The hash functions of definitions and of state definitions: SHA-256 of their JSON. -/
structure Hashing where
  definition : Identity → String
  state : List Port → String

/-- An object of the ORM. Without a primary key it was never stored, or it was deleted. -/
structure Instance (α : Type) where
  pk : Option Nat
  row : α

namespace Definition

variable (definition : Definition)

/-- A pure function is idempotent. -/
def desiredIdempotent : Bool := definition.idempotent || definition.pure

def text : String :=
  if definition.description.getD "" = "" then "No description" else definition.description.getD ""

end Definition

namespace Action

/-- The columns that tell actions apart. -/
def coordinate (row : Action) : Organization × String × String × String :=
  (row.organization, row.app, row.key, row.version)

/-- The columns that a changed definition rewrites. -/
def redefine (row : Action) (hash : String) (definition : Definition) : Action :=
  { row with
    hash := hash
    args := definition.args
    returns := definition.returns
    services := Ports.servicesFromPorts definition.args definition.returns
    portGroups := definition.portGroups
    stateful := definition.stateful
    scope := Ports.inferActionScope definition.toIdentity
    kind := definition.kind
    description := definition.text
    name := definition.name }

def qualify (row : Action) (definition : Definition) : Action :=
  { row with
    pure := definition.pure
    idempotent := definition.desiredIdempotent
    isDev := definition.isDev }

/-- The qualifiers of the row are those of the definition. -/
def isQualified (row : Action) (definition : Definition) : Bool :=
  row.pure = definition.pure && row.idempotent = definition.desiredIdempotent &&
    row.isDev = definition.isDev

end Action

/-- The row of a definition that has none. -/
def Agent.newAction (agent : Agent) (hash : String) (definition : Definition) : Action :=
  let row : Action := {
    key := definition.key
    version := definition.version
    app := agent.app
    hash := hash
    organization := agent.organization }
  (row.redefine hash definition).qualify definition

namespace Registration

open Fallible
open Interleave (Table)

/-! ## The action -/

/-- `save()` of an action: `UPDATE`, or `INSERT` where there is no row under the key. -/
def storeAction (db : Database) (action : Instance Action) :
    Except Error (Database × Instance Action) :=
  if (db.actions.select fun k row =>
      some k ≠ action.pk && row.coordinate = action.row.coordinate).isEmpty then
    match action.pk with
    | none => .ok ({ db with actions := db.actions.insert action.row },
        ⟨some db.actions.next, action.row⟩)
    | some k => .ok ({ db with actions := db.actions.put k action.row }, action)
  else .error .integrityError

/-- `save(update_fields=...)`: the row has to be there. -/
def updateAction (db : Database) (pk : Option ActionId) (update : Action → Action) :
    Except Error Database := do
  let k ← orRaise (.valueError "Cannot force an update in save() with no primary key.") pk
  let _ ← orRaise (.databaseError "Save with update_fields did not affect any rows.")
    (db.actions.get k)
  return { db with actions := db.actions.modify k update }

variable (H : Hashing)

def notTheOwner (definition : Definition) : Error :=
  .valueError s!"Action with key {definition.key} and version {definition.version} already exists but has different hash and you are not the owner. Please update the version or key of your action definition."

/-- The action of a definition, up to date in what the hash is of: the hash branch. The flag is
`definition_changed`. -/
def upsertAction (db : Database) (agent : Agent) (definition : Definition)
    (found : Option (Instance Action)) : Except Error ((Database × Instance Action) × Bool) :=
  let hash := H.definition definition.toIdentity
  match found with
  | some action =>
    if action.row.hash = hash then .ok ((db, action), false)
    else if action.row.app = agent.app then do
      let stored ← storeAction db ⟨action.pk, action.row.redefine hash definition⟩
      return (stored, true)
    else .error (notTheOwner definition)
  | none => do
    let stored ← storeAction db ⟨none, agent.newAction hash definition⟩
    return (stored, true)

/-- The sync of the qualifiers: only what differs is written. -/
def syncQualifiers (db : Database) (definition : Definition) (action : Instance Action) :
    Except Error (Database × Instance Action) :=
  if action.row.isQualified definition then .ok (db, action)
  else do
    let db ← updateAction db action.pk fun row => { row with
      pure := if action.row.pure = definition.pure then row.pure else definition.pure
      idempotent := if action.row.idempotent = definition.desiredIdempotent then row.idempotent
        else definition.desiredIdempotent
      isDev := if action.row.isDev = definition.isDev then row.isDev else definition.isDev }
    return (db, ⟨action.pk, action.row.qualify definition⟩)

/-- `_relational_state_is_current`: the counts, and that there are rows where there should be. -/
def relationalStateIsCurrent (db : Database) (definition : Definition)
    (action : Instance Action) : Except Error Bool :=
  if action.row.argCount ≠ definition.args.length ∨
      action.row.returnCount ≠ definition.returns.length then .ok false
  else if definition.args.isEmpty && definition.returns.isEmpty then .ok true
  else do
    let k ← orRaise .typeError (action.pk.filter fun k => (db.actions.get k).isSome)
    return (definition.args.isEmpty || !(db.argPorts k).isEmpty) &&
      (definition.returns.isEmpty || !(db.returnPorts k).isEmpty)

/-- Whether an action is one that a test of the app names. -/
def TestTarget.matches (target : TestTarget) (app : String) (action : Action) : Bool :=
  if target.hash.getD "" ≠ "" then some action.hash = target.hash
  else some action.key = target.key &&
    (if target.app.getD "" ≠ "" then some action.app = target.app else action.app = app) &&
    (target.version.getD "" = "" || some action.version = target.version)

/-- The actions of the organization that one of the targets names. -/
def matchingActions (db : Database) (organization : Organization) (app : String)
    (targets : List TestTarget) : Finset ActionId :=
  ((db.actions.select fun _ action => action.organization = organization &&
    targets.any fun target => TestTarget.matches target app action).map (·.1)).toFinset

/-- `_resolve_test_targets`. -/
def resolveTestTargets (db : Database) (agent : Agent) (targets : List TestTarget) :
    Finset ActionId :=
  matchingActions db agent.organization agent.app targets

/-- The collections of a definition, by name; those that are missing are created. -/
def getOrCreateCollections (db : Database) (agent : Agent) :
    List String → Except Error (Database × List Nat)
  | [] => .ok (db, [])
  | name :: names => do
    let stored ← db.collections.updateOrCreate (.multipleObjectsReturned "Collection")
      (fun row => row.name = name) ⟨name, agent.user, agent.organization⟩ id
    let rest ← getOrCreateCollections { db with collections := stored.1 } agent names
    return (rest.1, stored.2 :: rest.2)

def compiler : List Descriptor → Except Error (Option String) := Descriptors.compileDescriptors

/-- `rebuild_relational_ports`. -/
def rebuildRelationalPorts (db : Database) (definition : Definition) (action : Instance Action) :
    Except Error (Database × Instance Action) := do
  let k ← orRaise (.valueError "instance needs to have a primary key value") action.pk
  let args ← Ports.bulkCreatePorts compiler definition.args
  let returns ← Ports.bulkCreatePorts compiler definition.returns
  let counted := fun row : Action =>
    { row with argCount := definition.args.length, returnCount := definition.returns.length }
  let db ← updateAction { db with
    argPorts := Function.update db.argPorts k args
    returnPorts := Function.update db.returnPorts k returns } action.pk counted
  return (db, ⟨action.pk, counted action.row⟩)

/-- The rebuild block: the ports, and what else is derived from the definition. -/
def rebuild (db : Database) (agent : Agent) (definition : Definition) (action : Instance Action) :
    Except Error (Database × Instance Action) := do
  let k ← orRaise (.valueError "instance needs to have a primary key value") action.pk
  let built ← rebuildRelationalPorts db definition action
  let tested := resolveTestTargets built.1 agent definition.isTestFor
  let collected ← getOrCreateCollections built.1 agent definition.collections
  storeAction { collected.1 with
    protocols := Function.update collected.1.protocols k
      (Ports.inferProtocols definition.toIdentity)
    isTestFor := Function.update collected.1.isTestFor k tested
    collectionsOf := Function.update collected.1.collectionsOf k collected.2.toFinset } built.2

/-- The action of a definition, with all that is derived from it. -/
def registerAction (db : Database) (agent : Agent) (definition : Definition)
    (found : Option (Instance Action)) : Except Error (Database × Instance Action) := do
  let upserted ← upsertAction H db agent definition found
  let synced ← syncQualifiers upserted.1.1 definition upserted.1.2
  let current ← bif upserted.2 then .ok false
    else relationalStateIsCurrent synced.1 definition synced.2
  if current then return synced
  else rebuild synced.1 agent definition synced.2

/-! ## The implementation -/

/-- What the new token of an implementation is scoped to. -/
def resolvedAudience (input : ImplementationInput) (action : Action) : Option (List String) :=
  match input.provenanceAudience with
  | some audience => some audience
  | none =>
    let services := Ports.servicesFromPorts action.args action.returns
    if services.isEmpty then none else some services

/-- `save()` of an implementation, or `create()` where there is no key. -/
def storeImplementation (db : Database) (pk : Option ImplementationId) (row : Implementation) :
    Except Error (Database × ImplementationId) :=
  if (db.implementations.select fun i other => some i ≠ pk && other.agent = row.agent &&
      (other.interface = row.interface || other.action = row.action)).isEmpty then
    match pk with
    | none => .ok ({ db with implementations := db.implementations.insert row },
        db.implementations.next)
    | some i => .ok ({ db with implementations := db.implementations.put i row }, i)
  else .error .integrityError

/-- How many implementations an action has. -/
def implementationCount (db : Database) (action : ActionId) : Nat :=
  (db.implementations.select fun _ row => row.action = action).length

/-- The columns that a registration writes to an implementation. -/
def configure (row : Implementation) (agent : Agent) (input : ImplementationInput)
    (action : ActionId) (audience : Option (List String)) : Implementation :=
  { row with
    action := action
    params := input.params.getD []
    release := agent.release
    needsToken := input.needsToken
    provenanceAudience := audience
    effect := input.effect }

/-- An object of an implementation: the key and the row. -/
abbrev ImplementationRef := ImplementationId × Implementation

/-- The deletion of the action that an interface leaves, if nothing else implements it. -/
def dropOrphan (db : Database) (implementation : Implementation) (action : Option ActionId) :
    Except Error (Database × Option ActionId) :=
  if some implementation.action ≠ action ∧ implementationCount db implementation.action = 1 then do
    let db ← db.delete (fun k => k = implementation.action) fun _ => false
    return (db, some implementation.action)
  else .ok (db, none)

/-- Point the interface at the action. The last component is the action that was deleted. -/
def pointImplementation (db : Database) (agentId : AgentId) (agent : Agent)
    (input : ImplementationInput) (action : Instance Action)
    (current : Option ImplementationRef) :
    Except Error ((Database × ImplementationRef) × Option ActionId) := do
  let audience := resolvedAudience input action.row
  match current with
  | some implementation =>
    let dropped ← dropOrphan db implementation.2 action.pk
    let k ← orRaise (.valueError "save() prohibited to prevent data loss due to unsaved related object 'action'.")
      action.pk
    let row := configure implementation.2 agent input k audience
    let stored ← storeImplementation dropped.1 (some implementation.1) row
    return ((stored.1, stored.2, row), dropped.2)
  | none =>
    let k ← orRaise (.valueError "save() prohibited to prevent data loss due to unsaved related object 'action'.")
      action.pk
    let row := configure { interface := input.interface, action := k, agent := agentId } agent
      input k audience
    let stored ← storeImplementation db none row
    return ((stored.1, stored.2, row), none)

/-- What the upsert of a dependency writes to its row. -/
def AgentDependency.write (dependency : AgentDependency) (row : Dependency) : Dependency :=
  { row with
    actionDemands := dependency.actionDependencies
    stateDemands := dependency.stateDependencies
    appFilter := dependency.app
    versionFilter := dependency.version
    minViableInstances := dependency.minViableInstances
    maxViableInstances := dependency.maxViableInstances
    preferedInstances := dependency.preferedInstances
    autoResolvable := dependency.autoResolvable }

/-- The upsert of a declared dependency. -/
def syncDependency (implementation : ImplementationId) (dependencies : Table Dependency)
    (dependency : AgentDependency) : Except Error (Table Dependency) := do
  let stored ← dependencies.updateOrCreate (.multipleObjectsReturned "Dependency")
    (fun row => row.implementation = implementation && row.key = dependency.key)
    (AgentDependency.write dependency { implementation := implementation, key := dependency.key })
    (AgentDependency.write dependency)
  return stored.1

/-- `_sync_dependencies`: one upsert after the other. -/
def syncDependencies (db : Database) (implementation : ImplementationId)
    (dependencies : List AgentDependency) : Except Error Database := do
  let synced ← dependencies.foldlM (syncDependency implementation) db.dependencies
  return { db with dependencies := synced }

/-- The agent's states with one of the interfaces. -/
def statesWith (db : Database) (agent : AgentId) (interfaces : List String) : Finset StateId :=
  ((db.states.select fun _ s => s.agent = agent && interfaces.contains s.interface).map
    (·.1)).toFinset

/-- The links to the manipulated states, where any are declared. -/
def linkManipulates (db : Database) (agent : AgentId) (implementation : ImplementationId)
    (manipulates : Option (List String)) : Database :=
  if manipulates.getD [] = [] then db
  else
    let states := statesWith db agent (manipulates.getD [])
    { db with manipulates := Function.update db.manipulates implementation states }

/-- The tracks, where any are declared. -/
def saveTracks (db : Database) (implementation : ImplementationRef) (tracks : Option (List Track)) :
    Except Error (Database × ImplementationRef) :=
  if tracks.getD [] = [] then .ok (db, implementation)
  else do
    let row := { implementation.2 with tracks := tracks.getD [] }
    let stored ← storeImplementation db (some implementation.1) row
    return (stored.1, stored.2, row)

/-! ## The registration -/

/-- What a registration leaves: the database, its two objects, and the action it deleted. -/
structure Registered where
  db : Database
  action : Instance Action
  implementation : ImplementationRef
  dropped : Option ActionId

/-- The refusals of incoherent qualifiers. -/
def checkQualifiers (input : ImplementationInput) : Except Error Unit :=
  if input.definition.pure && input.effect = .physical then
    .error (.valueError s!"Action {input.definition.key} is declared pure but its implementation has a PHYSICAL effect class — a pure action cannot touch the real world.")
  else if input.definition.pure && input.definition.stateful then
    .error (.valueError s!"Action {input.definition.key} is declared both pure and stateful — a pure action cannot depend on or change state.")
  else .ok ()

/-- The implementation of an action, with all that hangs on it. -/
def installImplementation (db : Database) (agentId : AgentId) (agent : Agent)
    (input : ImplementationInput) (action : Instance Action) (current : Option ImplementationRef) :
    Except Error Registered := do
  let pointed ← pointImplementation db agentId agent input action current
  let db ← syncDependencies pointed.1.1 pointed.1.2.1 input.dependencies
  let tracked ← saveTracks (linkManipulates db agentId pointed.1.2.1 input.manipulates)
    pointed.1.2 input.tracks
  return ⟨tracked.1, action, tracked.2, pointed.2⟩

/-- `_create_implementation`, for the objects that were looked up. -/
def register (db : Database) (agentId : AgentId) (agent : Agent) (input : ImplementationInput)
    (found : Option (Instance Action)) (current : Option ImplementationRef) :
    Except Error Registered := do
  let _ ← checkQualifiers input
  let registered ← registerAction H db agent input.definition found
  installImplementation registered.1 agentId agent input registered.2 current

/-- The action with a key and version of the agent's app and organization. -/
def findAction (db : Database) (agent : Agent) (definition : Definition) :
    Option (Instance Action) :=
  ((db.actions.select fun _ row => row.coordinate =
    (agent.organization, agent.app, definition.key, definition.version)).head?).map fun row =>
      ⟨some row.1, row.2⟩

def findImplementation (db : Database) (agent : AgentId) (interface : String) :
    Option ImplementationRef :=
  (db.implementations.select fun _ row => row.interface = interface && row.agent = agent).head?

/-- `_create_implementation` without maps. -/
def createImplementation (db : Database) (agentId : AgentId) (agent : Agent)
    (input : ImplementationInput) : Except Error Registered :=
  register H db agentId agent input (findAction db agent input.definition)
    (findImplementation db agentId input.interface)

end Registration
end Rekuest
