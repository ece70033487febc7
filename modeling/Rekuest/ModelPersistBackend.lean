import Rekuest.MessageRouter

/-!
# Rekuest.ModelPersistBackend

The persist backend over the database, as the router calls it: the ids on the wire are texts.

* `readId`: a task id of the wire, or what its field raises. `toPython` is the field's own reading.
* `onTask`: a caller's request about a task. `onAgentReport`: a report about one, refused where its
  event cannot store it (`ReportKind.stored?`).
* `onAgentStatePatch` and those below it: the log of an agent's states, and its locks.
* `persistBackend`: all of it behind the port of the router.
-/

namespace Rekuest

open Interleave

instance : Exceptions Error where
  caught _ := true
  unknownAgentMessage := .unknownAgentMessage
  isUnknownAgentMessage e := e == .unknownAgentMessage
  valueError := .valueError

/-- A column `integer` takes the number. -/
def inInteger (n : Int) : Bool := -2147483648 ≤ n && n < 2147483648

/-- The report as the columns of its event take it, if they do. -/
def ReportKind.stored? : ReportKind String → Option ReportKind
  | .started => some .started
  | .paused => some .paused
  | .resumed => some .resumed
  | .log message => (VarChar.of? _ message).map .log
  | .progress percent message =>
    if percent.all inInteger then
      match message with
      | none => some (.progress percent none)
      | some text => (VarChar.of? _ text).map fun text => .progress percent (some text)
    else none
  | .yield returns => some (.yield returns)
  | .completed => some .completed
  | .cancelled => some .cancelled
  | .interrupted => some .interrupted
  | .failed error => (VarChar.of? _ error).map .failed
  | .critical error => (VarChar.of? _ error).map .critical

namespace ModelPersistBackend

variable (S : Settings) (server : ServerId) (toPython : String → Except Error TaskId)

/-- The value, or what was raised. -/
def orRaise {α : Type} : Except Error α → Handler α
  | .ok a => .ret a
  | .error e => .fail e

def readId (text : String) : Handler TaskId := orRaise (toPython text)

/-! ## Callers -/

/-- `_caller_control_sync` on an id that its field refuses: the caller is there before the task is
looked up. -/
def refuseId (agentId : AgentId) (e : Error) : Handler TaskId := do
  let agent ← orDoesNotExist "Agent" (← getAgent agentId)
  let _ : CallerId ← Prog.issue (L := Statements)
    (.getOrCreateCaller ⟨agent.client, agent.user, agent.organization⟩)
  .fail e

def onTask (agent : AgentId) (m : ControlRequest) (operation : TaskId → Handler TaskId) :
    Handler TaskId :=
  match toPython m.task with
  | .ok id => operation id
  | .error e => refuseId agent e

/-! ## Reports -/

/-- A report that an event cannot store: all that its handler does before it creates the event. -/
def refuseReport (id : TaskId) : ReportKind String → Handler Unit
  | .failed _ => PersistBackend.onTerminal server id (.fail .dataError)
  | .critical _ => PersistBackend.onTerminal server id (.fail .dataError)
  | _ => .fail .dataError

def onAgentReport (m : WireReport) : Handler Unit := do
  let id ← readId toPython m.task
  match m.kind.stored? with
  | some kind =>
    let _ ← PersistBackend.onReport S server ⟨m.id, m.seq, id, kind⟩
    return ()
  | none => refuseReport server id m.kind

section

variable {S server toPython} {m : WireReport} {id : TaskId}

theorem onAgentReport_error {e : Error} (h : toPython m.task = .error e) :
    onAgentReport S server toPython m = .fail e := by
  rw [onAgentReport, readId, h]
  rfl

theorem onAgentReport_stored {kind : ReportKind} (h : toPython m.task = .ok id)
    (hkind : m.kind.stored? = some kind) : onAgentReport S server toPython m =
      (PersistBackend.onReport S server ⟨m.id, m.seq, id, kind⟩).bind fun _ => .ret () := by
  rw [onAgentReport, readId, h, hkind]
  rfl

theorem onAgentReport_refused (h : toPython m.task = .ok id) (hkind : m.kind.stored? = none) :
    onAgentReport S server toPython m = refuseReport server id m.kind := by
  rw [onAgentReport, readId, h, hkind]
  rfl

end

/-! ## States and locks -/

def getState (agent : AgentId) (interface : String) : Handler StateId := do
  orDoesNotExist "State" (← ask (.stateOf agent interface))

abbrev issueState (c : StateStmt) : Handler c.Ans := Prog.issue (L := Statements) (.state c)

def getOrCreateSession (agent : AgentId) (sessionId : String) : Handler SessionKey := do
  let session : Except Error SessionKey ← issueState (.getOrCreateSession agent sessionId)
  orRaise session

def createPatch (row : Patch) : Handler Unit := do
  let stored : Bool ← issueState (.createPatch row)
  if stored then return () else .fail .integrityError

def createSnapshot (row : Snapshot) : Handler Unit := do
  let stored : Bool ← issueState (.createSnapshot row)
  if stored then return () else .fail .integrityError

/-- The task that a patch names, if it names one. -/
def readId? : Option String → Handler (Option TaskId)
  | none => .ret none
  | some text => (readId toPython text).bind fun id => .ret (some id)

def onAgentStatePatch (agent : AgentId) (m : StatePatch) : Handler Unit := do
  let state ← getState agent m.stateName
  let session ← getOrCreateSession agent m.sessionId
  let task ← readId? toPython m.taskId
  createPatch {
    state := state
    agent := some agent
    session := some session
    op := m.op
    path := m.path
    value := m.value
    timestamp := 0
    globalRev := m.globalRev
    task := task }

/-- One state of a snapshot message. -/
def snapshotState (agent : AgentId) (session : SessionKey) (globalRev : Int)
    (snapshot : String × Json) : Handler Unit := do
  let state ← getState agent snapshot.1
  createSnapshot {
    state := state
    agent := some agent
    session := some session
    value := snapshot.2
    timestamp := 0
    globalRev := globalRev }

def snapshotStates (agent : AgentId) (sessionId : String) (globalRev : Int)
    (snapshots : Dict Json) : Handler Unit := do
  let session ← getOrCreateSession agent sessionId
  let _ ← orDoesNotExist "Agent" (← getAgent agent)
  Prog.forEach (snapshotState agent session globalRev) snapshots

def onAgentStateSnapshot (agent : AgentId) (m : StateSnapshot) : Handler Unit :=
  snapshotStates agent m.sessionId m.globalRev m.snapshots

def onAgentSessionInit (agent : AgentId) (m : SessionInit) : Handler Unit :=
  snapshotStates agent m.sessionId 0 m.states

/-- A lock for a task that is not there is ignored. -/
def onAgentLock (agent : AgentId) (m : LockMessage) : Handler Unit := do
  let id ← readId toPython m.task
  let task ← getTask id
  if task.isNone then return ()
  let updated : Except Error Bool ← issueState (.updateLock agent m.key id)
  let updated ← orRaise updated
  if updated then return ()
  let created : Except Error Unit ← issueState (.createLock agent m.key id)
  orRaise created

def onAgentUnlock (agent : AgentId) (key : String) : Handler Unit :=
  issueState (.releaseLocks agent key)

/-! ## The port -/

def persistBackend : PersistBackendPort Statements Error where
  onCallerAssign agent m := Backend.callerAssignSync S agent m.reference m.input
  onCallerCancel agent m autoInterrupt :=
    onTask toPython agent m fun id => Backend.onCallerCancel server agent id autoInterrupt
  onCallerInterrupt agent m := onTask toPython agent m (Backend.callerControlSync agent .interrupt)
  onCallerPause agent m := onTask toPython agent m (Backend.callerControlSync agent .pause)
  onCallerResume agent m step :=
    onTask toPython agent m (Backend.callerControlSync agent (.resume step))
  onAgentReport _ m := onAgentReport S server toPython m
  onAgentStatePatch agent m := onAgentStatePatch toPython agent m
  onAgentStateSnapshot agent m := onAgentStateSnapshot agent m
  onAgentSessionInit agent m := onAgentSessionInit agent m
  onAgentLock agent m := onAgentLock toPython agent m
  onAgentUnlock agent key := onAgentUnlock agent key

end ModelPersistBackend
end Rekuest
