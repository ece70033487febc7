import Rekuest.HigherOrder
import Rekuest.Transport

/-!
# Rekuest.Backend

The postman backend: it resolves an assign to an implementation, stores the task and notifies
the agent, and it passes control requests on.

* `buildDependencyDict`: the agents and implementations bound to an implementation's declared
  dependencies.
* `assign`, `assignHigherOrder`: a task, or a virtual wrapper with the child that runs.
* `requestControl`: the request phase of cancel, interrupt, pause and resume.
* `callerAssignSync`, `callerControlSync`: the same asked for by an agent over its socket.
* `block`, `unblock`: two flags of an agent row.
-/

namespace Rekuest
namespace Backend

open Interleave

/-- `bool(s)` of an optional string. -/
def truthy (s : Option String) : Bool := s.any (· != "")

structure ResolvedDependency where
  key : String
  mappedAgents : List AgentId
  autoResolve : Bool := false

structure AssignInput where
  action : Option ActionId := none
  actionHash : Option String := none
  implementation : Option ImplementationId := none
  dependency : Option String := none
  method : Option String := none
  hooks : List Hook := []
  args : Dict Json := []
  reference : Option String := none
  parent : Option TaskId := none
  capture : Option Bool := none
  ephemeral : Option Bool := none
  dependencies : List ResolvedDependency := []

/-! ## Dependencies -/

/-- The slot of one action demand on an agent. -/
def demandSlot (agent : AgentId) (demand : ActionDemand) : Handler (String × Json) := do
  let actionKey := if truthy demand.demandKey then demand.demandKey.getD "" else demand.key
  match ← ask (.implementationsOfKey actionKey agent) with
  | [] => .fail (.valueError
      s!"No implementation found for dependency demand {demand.key} on agent {agent}")
  | [implementation] =>
    if (← ask (.dependencies implementation)).isEmpty then
      return (demand.key, .obj [("implementation", .num implementation), ("dependencies", .obj [])])
    else .fail (.notImplemented
      "Nested dependencies are not supported yet, but they are coming soon!")
  | _ => .fail (.multipleObjectsReturned "Implementation")

def buildAgentDependencyDict (dep : Dependency) (agent : AgentId) : Handler Json := do
  let slots ← Prog.collect (demandSlot agent) dep.actionDemands
  return .obj [("agent", .num agent), ("actions", .obj (Dict.update [] slots))]

/-- The agents a dependency is bound to: at most the maximal number, at least the minimal. -/
def viableAgents (dep : Dependency) (agents : List AgentId) : Handler (List AgentId) :=
  let agents := match dep.maxViableInstances with
    | some n => agents.take n
    | none => agents
  match dep.minViableInstances with
  | some n =>
    if agents.length < n then .fail (.valueError
      s!"Not enough agents found for dependency {dep.key}. Required at least {n} but found only {agents.length}. Please ensure that there are enough agents available to resolve this dependency.")
    else return agents
  | none => return agents

/-- The agents the caller chose for a dependency, or that the server chooses for it. -/
def candidateAgents (organization : Organization) (overwrites : List ResolvedDependency)
    (dep : Dependency) : Handler (List AgentId) := do
  match overwrites.find? (·.key = dep.key) with
  | some overwrite =>
    if overwrite.autoResolve then
      if dep.autoResolvable then ask (.appAgents dep.appFilter organization)
      else .fail (.valueError
        s!"Dependency {dep.key} is not auto resolvable, but was provided with an overwrite that has auto_resolve set to true. Please either set auto_resolve to false for this dependency overwrite, or make the dependency auto resolvable in the system.")
    else ask (.mappedAgents overwrite.mappedAgents)
  | none =>
    if dep.autoResolvable then ask (.appAgents dep.appFilter organization)
    else .fail (.valueError
      s!"Dependency {dep.key} was not provided with an overwrite, and is not auto resolvable. Please provide a dependency overwrite for this dependency to ensure it can be resolved properly.")

def bindDependency (organization : Organization) (overwrites : List ResolvedDependency)
    (dep : Dependency) : Handler (String × Json) := do
  let candidates ← candidateAgents organization overwrites dep
  let agents ← viableAgents dep candidates
  let bound ← Prog.collect (buildAgentDependencyDict dep) agents
  return (dep.key, .arr bound)

def buildDependencyDict (implementation : ImplementationId) (organization : Organization)
    (overwrites : List ResolvedDependency) : Handler (Dict Json) := do
  let dependencies ← ask (.dependencies implementation)
  let bound ← Prog.collect (bindDependency organization overwrites) dependencies
  return Dict.update [] bound

/-! ## Assign -/

/-- What an assign resolves to. -/
structure Resolved where
  id : ImplementationId
  implementation : Implementation
  /-- The slot's own dependencies, where the task runs in a slot of its parent. -/
  dependencyDict : Option (Dict Json) := none

/-- `d[key]` of a JSON object. -/
def jsonMember (json : Json) (key : String) : Handler Json :=
  match json with
  | .obj members =>
    match Dict.get? members key with
    | some value => .ret value
    | none => .fail (.keyError key)
  | _ => .fail .typeError

/-- `random.choice` of a JSON array. -/
def jsonChoice (json : Json) : Handler Json :=
  match json with
  | .arr items => do
    let k : Nat ← ask (.choice items.length)
    match items[k]? with
    | some item => .ret item
    | none => .fail .indexError
  | _ => .fail .typeError

/-- The slot `input.method` of the dependency `dependency` of the parent task. -/
def resolveDependency (input : AssignInput) (dependency : String) : Handler Resolved := do
  if !truthy input.method then
    .fail (.assertionError "Method key must be provided when assigning to a dependency")
  else
    match input.parent with
    | none => .fail (.assertionError "Dependency assignments must have a parent task")
    | some parentId =>
      let parent ← orDoesNotExist "Task" (← getTask parentId)
      match parent.dependencies.get? dependency with
      | none => .fail (.valueError
          s!"Dependency {dependency} not found in parent task dependencies.")
      | some agentDependency =>
        let chosenAgent ← jsonChoice agentDependency
        match chosenAgent with
        | .obj members =>
          match Dict.get? members "actions" with
          | none => .fail (.valueError s!"Dependency {dependency} does not contain an action")
          | some (.obj actions) =>
            let method := input.method.getD ""
            match Dict.get? actions method with
            | none => .fail (.valueError
                s!"Method {method} not found in dependency {dependency} actions")
            | some slot =>
              let implementationId ← jsonMember slot "implementation"
              let dependencyDict ← jsonMember slot "dependencies"
              match implementationId, dependencyDict with
              | .num id, .obj dependencies =>
                let (implementation, _) ←
                  orDoesNotExist "Implementation" (← ask (.implementation id.toNat))
                return ⟨id.toNat, implementation, some dependencies⟩
              | _, _ => .fail .typeError
          | some _ => .fail .typeError
        | _ => .fail .typeError

/-- The first implementation of an action whose agent is available. -/
def resolveAction (action : ActionId) (name : String) : Handler Resolved := do
  match ← ask (.availableImplementation action) with
  | some (id, implementation) => return ⟨id, implementation, none⟩
  | none => .fail (.valueError s!"No active implementation found for action {name}")

def resolveImplementation (id : ImplementationId) : Handler Resolved := do
  let (implementation, _) ← orDoesNotExist "Implementation" (← ask (.implementation id))
  if implementation.higherOrderFor.isNone then
    let available ← orDoesNotExist "Agent" (← ask (.agentIsAvailable implementation.agent))
    if available then return ⟨id, implementation, none⟩
    else .fail (.assertionError
      "Agent is not available (not connected, and not a webhook agent)")
  else return ⟨id, implementation, none⟩

def resolve (organization : Organization) (input : AssignInput) : Handler Resolved := do
  if truthy input.dependency then resolveDependency input (input.dependency.getD "")
  else match input.action with
    | some id =>
      let action ← orDoesNotExist "Action" (← ask (.action id))
      resolveAction id action.name
    | none => match input.implementation with
      | some id => resolveImplementation id
      | none =>
        if truthy input.actionHash then
          match ← ask (.actionsOfHash (input.actionHash.getD "") organization) with
          | [] => .fail (.doesNotExist "Action")
          | [(id, action)] => resolveAction id action.name
          | _ => .fail (.multipleObjectsReturned "Action")
        else .fail (.valueError
          "You need to provide either, action_hash or action_id, to create an assignment for an agent")

def getCallerForContext (ctx : CallerContext) (organization : Organization) : Handler CallerId :=
  match ctx.client with
  | some client => Prog.issue (L := Statements)
      (.getOrCreateCaller ⟨client, ctx.user, organization⟩)
  -- `client` is not nullable on a caller row
  | none => .fail .integrityError

/-- `Task.objects.create`. The hooks of an input are models, which the JSON column refuses. -/
def storeTask (row : Task) : Handler TaskId := do
  if !row.hooks.isEmpty then .fail .typeError
  else
    match ← createTask row with
    | some id => return id
    | none => .fail .integrityError

def mintToken (id : TaskId) (ctx : CallerContext) : Handler (Option Token) := do
  match ← ask (.mint id ctx) with
  | .ok token => return token
  | .error message => .fail (.valueError message)

def liftProjection {α : Type} : Except HigherOrder.ProjectionError α → Handler α
  | .ok a => .ret a
  | .error (.keyError key) => .fail (.keyError key)
  | .error (.valueError message) => .fail (.valueError message)

/-- `input.reference`, or a fresh one. -/
def referenceFor (input : AssignInput) : Handler String :=
  if truthy input.reference then .ret (input.reference.getD "") else ask .uuid

section

variable (S : Settings)

/-- The wrapper's row: it is never broadcast. -/
def wrapperTask (input : AssignInput) (higherId : ImplementationId) (higher : Implementation)
    (caller : CallerId) (reference : String) (dependencies : Dict Json) : Task where
  action := higher.action
  args := some input.args
  argsHash := some (S.argsHash input.args)
  reference := reference
  parent := input.parent
  agent := higher.agent
  capture := input.capture.getD false
  implementation := some higherId
  isDone := false
  latestEventKind := .started
  latestInstructKind := .assign
  hooks := input.hooks
  dependencies := dependencies
  caller := some caller
  ephemeral := input.ephemeral.getD false

/-- The row of the child that runs the lower implementation. -/
def childTask (wrapper : TaskId) (lowerId : ImplementationId) (lower : Implementation)
    (caller : CallerId) (reference : String) (args dependencies : Dict Json) : Task where
  action := lower.action
  args := some args
  argsHash := some (S.argsHash args)
  reference := reference
  parent := some wrapper
  root := some wrapper
  agent := lower.agent
  capture := false
  implementation := some lowerId
  isDone := false
  latestEventKind := .started
  latestInstructKind := .assign
  dependencies := dependencies
  caller := some caller

def assignHigherOrder (ctx : CallerContext) (organization : Organization) (input : AssignInput)
    (higherId : ImplementationId) (higher : Implementation) (lowerId : ImplementationId)
    (caller : CallerId) : Handler TaskId := do
  let (lower, lowerAction) ←
    orDoesNotExist "Implementation" (← ask (.implementation lowerId))
  let lowerAction ← orDoesNotExist "Action" lowerAction
  let available ← orDoesNotExist "Agent" (← ask (.agentIsAvailable lower.agent))
  if !available then .fail (.valueError
    s!"Agent for lower implementation {lower.interface} is not available")
  else
    let config := higher.higherOrderConfig
    let higherDependencies ← buildDependencyDict higherId organization input.dependencies
    let lowerArgs ← liftProjection (HigherOrder.buildLowerArgs config input.args)
    let lowerDependencies ←
      liftProjection (HigherOrder.buildLowerDependencies config higherDependencies)
    let reference ← referenceFor input
    let higherTask ←
      storeTask (wrapperTask S input higherId higher caller reference higherDependencies)
    let lowerReference ← ask .uuid
    let lowerTask ← storeTask
      (childTask S higherTask lowerId lower caller lowerReference lowerArgs lowerDependencies)
    let token ← mintToken lowerTask ctx
    broadcast lower.agent (.assign {
      task := lowerTask
      args := lowerArgs
      user := ctx.user.sub
      org := organization.slug
      reference := some lowerReference
      capture := false
      resolution := none
      interface := lower.interface
      action := lowerAction.hash
      implementation := lowerId
      token := token })
    return higherTask

/-- The row of a task that runs on the resolved implementation itself. -/
def plainTask (input : AssignInput) (target : Resolved) (caller : CallerId) (reference : String)
    (dependencies : Dict Json) : Task where
  action := target.implementation.action
  args := some input.args
  argsHash := some (S.argsHash input.args)
  reference := reference
  parent := input.parent
  agent := target.implementation.agent
  capture := input.capture.getD false
  implementation := some target.id
  dependency := input.dependency
  dependencyMethod := input.method
  isDone := false
  latestEventKind := .started
  latestInstructKind := .assign
  hooks := input.hooks
  dependencies := dependencies
  caller := some caller
  ephemeral := input.ephemeral.getD false

def assign (ctx : CallerContext) (input : AssignInput) : Handler TaskId := do
  match ctx.organization with
  | none => .fail (.valueError "Cannot assign without an organization")
  | some organization =>
    let caller ← getCallerForContext ctx organization
    let target ← resolve organization input
    match target.implementation.higherOrderFor with
    | some lowerId =>
      assignHigherOrder S ctx organization input target.id target.implementation lowerId caller
    | none =>
      let (_, action) ← orDoesNotExist "Implementation" (← ask (.implementation target.id))
      let action ← orDoesNotExist "Action" action
      let reference ← referenceFor input
      let dependencies ← match target.dependencyDict with
        | some dependencies => .ret dependencies
        | none => buildDependencyDict target.id organization input.dependencies
      let task ← storeTask (plainTask S input target caller reference dependencies)
      let token ← mintToken task ctx
      broadcast target.implementation.agent (.assign {
        task := task
        args := input.args
        user := ctx.user.sub
        org := organization.slug
        reference := some reference
        capture := input.capture.getD false
        resolution := none
        interface := target.implementation.interface
        action := action.hash
        implementation := target.id
        token := token })
      -- an INIT hook's assign names its parent by an `int`, which the input model refuses
      Prog.forEach (fun hook => if hook.kind = .init then .fail .validationError else .ret ())
        input.hooks
      return task

end

/-! ## Control -/

inductive ControlOp where
  | cancel | interrupt | pause
  | resume (step : Bool)
  deriving DecidableEq, Repr

namespace ControlOp

def instructKind : ControlOp → TaskInstructKind
  | cancel => .cancel
  | interrupt => .interrupt
  | pause => .pause
  | resume _ => .resume

def ingKind : ControlOp → TaskEventKind
  | cancel => .cancelling
  | interrupt => .interrupting
  | pause => .pausing
  | resume _ => .resuming

def toAgent (id : TaskId) : ControlOp → ToAgentMessage
  | cancel => .cancel id
  | interrupt => .interrupt id
  | pause => .pause id
  | resume step => .resume id step

/-- Whether the operation reaches every task still open under the target as its root. -/
def propagates : ControlOp → Bool
  | interrupt => true
  | _ => false

end ControlOp

/-- One target of a control request. -/
def controlTarget (op : ControlOp) (target : TaskId × Task) : Handler Unit := do
  saveTask target.1 { latestInstructKind := some op.instructKind }
  createEvent { task := target.1, kind := op.ingKind }
  broadcast target.2.agent (op.toAgent target.1)

def requestControl (op : ControlOp) (id : TaskId) : Handler TaskId := do
  let task ← orDoesNotExist "Task" (← getTask id)
  if task.isDone then .fail (.valueError "Task is already terminal")
  else
    let descendants ← if op.propagates then ask (.openTasksOfRoot id) else .ret []
    Prog.forEach (controlTarget op) ((id, task) :: descendants)
    return id

def callerAssignSync (S : Settings) (agentId : AgentId) (reference : String)
    (input : AssignInput) : Handler (TaskId × Bool) := do
  let agent ← orDoesNotExist "Agent" (← getAgent agentId)
  let caller : CallerId ← Prog.issue (L := Statements)
    (.getOrCreateCaller ⟨agent.client, agent.user, agent.organization⟩)
  match ← ask (.taskByReference caller reference) with
  | some existing => return (existing, false)
  | none =>
    if input.parent.isNone then .fail (.permissionError
      "An agent may only assign dependent work: 'parent' is required. Root tasks originate from the GraphQL assign mutation, where the initiator is an accountable human.")
    else
      let roles ← ask (.rolesForCaller caller)
      let ctx : CallerContext := {
        user := agent.user
        client := some agent.client
        organization := some agent.organization
        roles := roles }
      let task ← assign S ctx { input with reference := some reference }
      return (task, true)

def callerControlSync (agentId : AgentId) (op : ControlOp) (id : TaskId) : Handler TaskId := do
  let agent ← orDoesNotExist "Agent" (← getAgent agentId)
  let caller : CallerId ← Prog.issue (L := Statements)
    (.getOrCreateCaller ⟨agent.client, agent.user, agent.organization⟩)
  let task ← orDoesNotExist "Task" (← getTask id)
  if task.caller != some caller then
    .fail (.permissionError "Not authorized to control this task (not its caller).")
  else requestControl op id

def onCallerCancel (server : ServerId) (agentId : AgentId) (id : TaskId)
    (autoInterrupt : Option Time) : Handler TaskId := do
  let task ← callerControlSync agentId .cancel id
  if let some window := autoInterrupt then schedule server .autoInterrupt id window
  return task

/-- The action of the auto-interrupt timer. -/
def escalateToInterrupt (id : TaskId) : Handler Unit := do
  match ← getTask id with
  | none => return ()
  | some task =>
    if task.isDone then return ()
    match ← Prog.attempt (requestControl .interrupt id) with
    | .ok _ => return ()
    | .error (.doesNotExist "Task") => return ()
    | .error e => .fail e

/-! ## Agents -/

def block (id : AgentId) (reason : Option String) : Handler Unit := do
  let agent ← orDoesNotExist "Agent" (← getAgent id)
  let _ : Unit ← Prog.issue (L := Statements) (.agent (.save id { agent with blocked := true }))
  broadcast id (.kick reason)

def unblock (id : AgentId) : Handler Unit := do
  let agent ← orDoesNotExist "Agent" (← getAgent id)
  Prog.issue (L := Statements) (.agent (.save id { agent with blocked := false }))

end Backend
end Rekuest
