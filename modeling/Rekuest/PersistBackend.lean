import Rekuest.HigherOrder
import Rekuest.Transport

/-!
# Rekuest.PersistBackend

The backend over the database: connections and their lease, the reconciliation of orphaned
work, and the agents' reports. `server` is the process a function runs in: it owns the timers.

* `onAgentConnected`, `onAgentDisconnected`, `renewAgentLease`: the lease of a connection.
* `reconcileOrphanedExecutorWork`, `reconcileStaleAgents`, `reconcileTasks`: the triggers of
  `failAndCascadeInflight`.
* `onReport` and the handlers under it: one for each report of an agent.
-/

namespace Rekuest
namespace PersistBackend

open Interleave

variable (S : Settings) (server : ServerId)

/-! ## Higher-order wrappers -/

/-- The event that a child's event becomes on its wrapper. -/
def wrapperEvent (config : HigherOrderConfig) (parent child : TaskId) (kind : TaskEventKind)
    (returns : Option (Dict Json)) (message : Option EventText) : TaskEvent where
  task := parent
  kind := kind
  delegatedTo := some child
  returns := if kind = .yield then HigherOrder.projectReturns config returns else none
  message := message

def unfoldToHigherOrder (child : TaskId) (kind : TaskEventKind) (returns : Option (Dict Json))
    (message : Option EventText) : Handler Unit := do
  match ← ask (.unfoldSource child) with
  | some (some (parent, some impl)) =>
    if impl.higherOrderFor.isNone then return ()
    createEvent (wrapperEvent impl.higherOrderConfig parent child kind returns message)
    saveTask parent { latestEventKind := some kind, done := kind.isTerminal }
  | _ => return ()

/-! ## Orphaned work -/

def claimTaskTransitionSync (id : TaskId) (toKind : TaskEventKind) (markDone : Bool)
    (skipIfKind : Option TaskEventKind) : Handler Bool := do
  orDoesNotExist "Task" (← issueTask (.claimTransition id toKind markDone skipIfKind))

def buildRedispatchAssignSync (id : TaskId) : Handler (Option Assign) := do
  let source ← orDoesNotExist "Task" (← ask (.redispatchSource id))
  match source.implementation, source.caller, source.action with
  | some (implId, impl), some caller, some action =>
    let ctx : CallerContext :=
      { user := caller.user, client := some caller.client
        organization := some caller.organization }
    match ← ask (.mintLoaded id ctx) with
    | .error _ => return none
    | .ok token => return some {
        task := id
        args := source.task.args.getD []
        user := caller.user.sub
        org := caller.organization.slug
        reference := some source.task.reference
        capture := source.task.capture
        resolution := source.task.resolution
        interface := impl.interface
        action := action.hash
        implementation := implId
        parent := source.task.parent
        root := source.task.root
        token := token }
  | _, _, _ => return none

def criticalMessage : EventText :=
  ⟨"Executor lost while running physical-effect work — terminal, not retried.", by decide⟩

def queuedMessage : EventText :=
  ⟨"Executor lost — idempotent action re-queued for redelivery.", by decide⟩

def disconnectedMessage : EventText := ⟨"Agent disconnected. Fate unknown", by decide⟩

def silentMessage : EventText :=
  ⟨"Physical op went silent past its progress lease — terminal, not retried.", by decide⟩

/-- The fate-unknown branch of the cascade. -/
def disconnectTask (id : TaskId) : Handler Unit := do
  if ← claimTaskTransitionSync id .disconnected false (some .disconnected) then
    createEvent { task := id, kind := .disconnected, message := some disconnectedMessage }

/-- The re-queue branch of the cascade. -/
def requeueTask (id : TaskId) (agent : AgentId) (assign : Assign) : Handler Unit := do
  if ← claimTaskTransitionSync id .queued false (some .queued) then
    createEvent { task := id, kind := .queued, message := some queuedMessage }
    broadcast agent (.assign assign)

/-- The physical branch of the cascade. -/
def failPhysicalTask (id : TaskId) : Handler Unit := do
  if ← claimTaskTransitionSync id .critical true none then
    createEvent { task := id, kind := .critical, message := some criticalMessage }

/-- One round of `_fail_and_cascade_inflight`, on the row as the in-flight query loaded it. -/
def failAndCascade (row : InFlight) : Handler Unit := do
  cancelTimer server .autoInterrupt row.id
  let effect := (row.implementation.map (·.effect)).getD .none
  if effect = .physical then failPhysicalTask row.id
  else if row.action.any (·.idempotent) && row.task.latestEventKind != .queued then
    match ← buildRedispatchAssignSync row.id with
    | some assign => requeueTask row.id row.task.agent assign
    | none => disconnectTask row.id
  else disconnectTask row.id

def failAndCascadeInflight (tasks : List InFlight) : Handler Unit :=
  Prog.forEach (failAndCascade server) tasks

def reconcileOrphanedExecutorWork (agent : AgentId) : Handler Unit := do
  let live ← orDoesNotExist "Agent" (← ask (.agentIsLive agent))
  if live then return ()
  let inFlight ← ask (.inFlight agent)
  failAndCascadeInflight server inFlight

def revokeLeaseSync (agent : AgentId) : Handler Bool := do
  orDoesNotExist "Agent" (← Prog.issue (L := Statements) (.lease (.revoke agent)))

/-- The loop of `reconcile_stale_agents`: the number of agents healed. -/
def healAgents : List AgentId → Handler Nat
  | [] => return 0
  | agent :: agents => do
    if ← revokeLeaseSync agent then
      reconcileOrphanedExecutorWork server agent
      return (← healAgents agents) + 1
    else healAgents agents

def reconcileStaleAgents : Handler Nat := do
  let stale ← ask .staleAgents
  healAgents server stale

/-- The `reconcile_tasks` management command. -/
def reconcileTasks : Handler Unit := do
  let _ ← reconcileStaleAgents server
  let orphaned ← ask .orphanedExecutors
  Prog.forEach (reconcileOrphanedExecutorWork server) orphaned

/-! ## Connections -/

structure LeaseClaim where
  claimed : Bool
  epoch : Option Int := none
  tasks : List TaskId := []
  displacedIncumbent : Bool := false

def claimLeaseSync (agent : AgentId) (connection : Option ConnectionId)
    (session : Option SessionId) (force : Bool) : Handler ClaimAnswer := do
  orDoesNotExist "Agent"
    (← Prog.issue (L := Statements) (.lease (.claim agent connection session force)))

/-- A different session took over: what the old one ran is orphaned. -/
def isFreshSession (prior session : Option SessionId) : Bool :=
  prior.isSome && session.isSome && prior != session

def onAgentConnected (agent : AgentId) (connection : Option ConnectionId)
    (session : Option SessionId) (force : Bool) : Handler LeaseClaim := do
  let answer ← claimLeaseSync agent connection session force
  if !answer.claimed then return { claimed := false }
  cancelTimer server .executorGrace agent
  let inFlight ← ask (.inFlight agent)
  if isFreshSession answer.priorSession session then
    failAndCascadeInflight server inFlight
    return {
      claimed := true
      epoch := answer.epoch
      displacedIncumbent := answer.displacedIncumbent }
  return {
    claimed := true
    epoch := answer.epoch
    tasks := inFlight.map (·.id)
    displacedIncumbent := answer.displacedIncumbent }

def renewAgentLease (agent : AgentId) (leaseEpoch : Int) : Handler Bool :=
  Prog.issue (L := Statements) (.lease (.renew agent leaseEpoch))

/-- The read, the generation guard and the save of `on_agent_disconnected`: whether the
connection was still the active one when the row was read. -/
def releaseLease (agent : AgentId) (connection : Option ConnectionId) : Handler Bool := do
  let row ← orDoesNotExist "Agent" (← getLease agent)
  if connection.isSome && row.activeConnectionId != connection then return false
  let _ : Unit ← Prog.issue (L := Statements) (.lease (.release agent))
  return true

def onAgentDisconnected (agent : AgentId) (connection : Option ConnectionId) : Handler Unit := do
  if ← releaseLease agent connection then
    if S.graceSeconds ≤ 0 then reconcileOrphanedExecutorWork server agent
    else schedule server .executorGrace agent S.graceSeconds

/-- `AgentProtocol.on_register`, from the authenticated agent on: what it sends, and the lease
claim that makes the session. -/
def onRegister (agent : AgentId) (connection : ConnectionId) (session : Option SessionId)
    (force : Bool) : Handler (Option LeaseClaim) := do
  let row ← orDoesNotExist "Agent" (← getAgent agent)
  if row.blocked then return none
  let _ : CallerId ← Prog.issue (L := Statements)
    (.getOrCreateCaller ⟨row.client, row.user, row.organization⟩)
  let claim ← onAgentConnected server agent (some connection) session force
  if !claim.claimed then
    send connection (.protocolError
      "Another connection is already registered for this agent. Reconnect with force to take over.")
    return none
  send connection (.init agent claim.tasks)
  return some claim

/-! ## Reports -/

/-- The event and the save that end a task. -/
def finishTask (id : TaskId) (kind : TaskEventKind) (message : Option EventText) : Handler Unit := do
  createEvent { task := id, kind := kind, message := message }
  saveTask id { latestEventKind := some kind, done := true }

/-- What the handlers of the terminal reports do first, and where the task is not done yet. -/
def onTerminal (id : TaskId) (finish : Handler Unit) : Handler Unit := do
  cancelTimer server .progressLeases id
  cancelTimer server .autoInterrupt id
  let x ← orDoesNotExist "Task" (← getTask id)
  if x.isDone then return ()
  finish

/-- A terminal report: where the task is not done yet, the event, the save, and the same on the
wrapper. -/
def onTerminalReport (id : TaskId) (kind : TaskEventKind) (message : Option EventText) :
    Handler Unit :=
  onTerminal server id do
    finishTask id kind message
    unfoldToHigherOrder id kind none message

def onAgentDone (id : TaskId) : Handler Unit := onTerminalReport server id .completed none

def onAgentCancelled (id : TaskId) : Handler Unit := onTerminalReport server id .cancelled none

def onAgentError (id : TaskId) (error : EventText) : Handler Unit :=
  onTerminalReport server id .failed (some error)

def onAgentCritical (id : TaskId) (error : EventText) : Handler Unit :=
  onTerminalReport server id .critical (some error)

/-- As the other terminal reports, but an unknown task is not an error. -/
def onAgentInterrupted (id : TaskId) : Handler Unit := do
  cancelTimer server .progressLeases id
  cancelTimer server .autoInterrupt id
  match ← getTask id with
  | none => return ()
  | some x =>
    if x.isDone then return ()
    finishTask id .interrupted none
    unfoldToHigherOrder id .interrupted none none

def onNonterminalConfirm (id : TaskId) (kind : TaskEventKind) (cancelLease : Bool) :
    Handler Unit := do
  if cancelLease then cancelTimer server .progressLeases id
  match ← getTask id with
  | none => return ()
  | some x =>
    if x.isDone then return ()
    createEvent { task := id, kind := kind }
    saveTask id { latestEventKind := some kind }

def onAgentPaused (id : TaskId) : Handler Unit := onNonterminalConfirm server id .paused true

def onAgentResumed (id : TaskId) : Handler Unit := onNonterminalConfirm server id .resumed false

def onAgentStarted (id : TaskId) : Handler Unit := onNonterminalConfirm server id .started false

def onAgentLog (id : TaskId) (message : EventText) : Handler Unit :=
  createEvent { task := id, kind := .log, message := some message }

def onAgentYield (id : TaskId) (returns : Option (Dict Json)) : Handler Unit := do
  createEvent { task := id, kind := .yield, returns := returns }
  unfoldToHigherOrder id .yield returns none

def armProgressLease (id : TaskId) : Handler Unit := do
  if S.progressLeaseSeconds ≤ 0 then return ()
  let (task, implementation) ← orDoesNotExist "Task" (← ask (.taskImplementation id))
  if task.isDone || (implementation.map (·.effect)) != some .physical then return ()
  schedule server .progressLeases id S.progressLeaseSeconds

def onAgentProgress (id : TaskId) (progress : Option Int) (message : Option EventText) :
    Handler Unit := do
  createEvent { task := id, kind := .progress, progress := progress, message := message }
  armProgressLease S server id

/-- The action of the progress lease, on a task that went silent. -/
def reconcileSilentPhysicalOp (id : TaskId) : Handler Unit := do
  let task ← orDoesNotExist "Task" (← getTask id)
  if task.isDone then return ()
  finishTask id .critical (some silentMessage)

/-- The durable-report acknowledgement. -/
def ack (report : Report) : ToAgentMessage := .eventAck report.id (some report.task) report.seq

/-- `route_from_agent_message` on a report: the reply goes back over the transport. -/
def onReport (report : Report) : Handler (Option ToAgentMessage) := do
  match report.kind with
  | .started => onAgentStarted server report.task; return some (ack report)
  | .cancelled => onAgentCancelled server report.task; return some (ack report)
  | .interrupted => onAgentInterrupted server report.task; return some (ack report)
  | .paused => onAgentPaused server report.task; return some (ack report)
  | .resumed => onAgentResumed server report.task; return some (ack report)
  | .yield returns => onAgentYield report.task returns; return none
  | .log message => onAgentLog report.task message; return none
  | .progress progress message =>
    onAgentProgress S server report.task progress message
    return none
  | .completed => onAgentDone server report.task; return some (ack report)
  | .failed error => onAgentError server report.task error; return some (ack report)
  | .critical error => onAgentCritical server report.task error; return some (ack report)

end PersistBackend
end Rekuest
