import Rekuest.Interleave.Keyed
import Rekuest.Interleave.Prog
import Rekuest.Liveness
import Rekuest.Provenance

/-!
# Rekuest.Store

The world the server processes share, and the statements they issue against it. A statement is
one database statement, one transaction under a row lock, one push, or one step on the timers
of a server process; it is atomic, and everything between two statements is pure.

* `World`: the database, what has been delivered, and the timers of every server process.
* `Input`: what a statement takes from outside: the clock, a fresh id, a random choice, and the
  order in which the database returns the rows of a query that asks for none.
* `Query`: the statements that only read. `LeaseStmt`, `AgentStmt`, `TaskStmt`, `StateStmt`,
  `DeliverStmt`, `TimerStmt`: those that write, by what they write.
* `exec`: what each statement answers and does.
-/

namespace Rekuest

open Interleave

abbrev ServerId := Nat

inductive Registry where
  | executorGrace | progressLeases | autoInterrupt
  deriving DecidableEq, Repr

/-- The timers of one server process: by registry and key, when each is due. -/
abbrev Timers := Registry → Nat → Option Time

structure World where
  db : Database := {}
  /-- What was pushed to the agents' queues, in order. -/
  pushed : List (AgentId × ToAgentMessage) := []
  /-- What was posted to webhook agents, in order. -/
  posted : List (AgentId × ToAgentMessage) := []
  /-- What was sent over the sockets, in order. -/
  sent : List (ConnectionId × ToAgentMessage) := []
  timers : ServerId → Timers := fun _ _ _ => none

instance : Inhabited World := ⟨{}⟩

structure Input where
  /-- The clock, when the statement's values are computed. -/
  now : Time := 0
  /-- The clock again, where a transaction reads it a second time. -/
  stamp : Time := 0
  uuid : String := ""
  pick : Nat := 0
  rank : Nat → Nat := id

instance : Inhabited Input := ⟨{}⟩

inductive Error where
  | doesNotExist (model : String)
  | multipleObjectsReturned (model : String)
  | valueError (message : String)
  | assertionError (message : String)
  | permissionError (message : String)
  | notImplemented (message : String)
  | keyError (key : String)
  | typeError
  | attributeError
  | indexError
  | integrityError
  | protectedError
  | databaseError (message : String)
  | dataError
  | validationError
  | unknownAgentMessage
  deriving DecidableEq, Repr

/-! ## Row updates -/

/-- What `_claim_lease_sync` answers. -/
structure ClaimAnswer where
  claimed : Bool
  epoch : Option Int
  priorSession : Option SessionId
  displacedIncumbent : Bool
  deriving DecidableEq, Repr

namespace LeaseColumns

variable (S : Settings) (i : Input)

/-- `_claim_lease_sync` on the row it has locked: the gate, and the row it saves. -/
def claim (row : LeaseColumns) (connection : Option ConnectionId) (session : Option SessionId)
    (force : Bool) : ClaimAnswer × LeaseColumns :=
  if Liveness.agentIsLive S i.now row.connected row.lastSeen && !force then
    (⟨false, none, row.activeSessionId, false⟩, row)
  else
    (⟨true, some (row.leaseEpoch + 1), row.activeSessionId, row.connected⟩,
      { leaseEpoch := row.leaseEpoch + 1
        connected := true
        lastSeen := some i.stamp
        activeConnectionId := connection
        activeSessionId := session })

/-- `_revoke_lease_sync` on the row it has locked. -/
def revoke (row : LeaseColumns) : Bool × LeaseColumns :=
  if Liveness.agentIsStale S i.now row.connected row.lastSeen then
    (true, { row with connected := false, leaseEpoch := row.leaseEpoch + 1 })
  else (false, row)

/-- `renew_agent_lease`: the compare-and-set on the epoch. -/
def renew (row : LeaseColumns) (leaseEpoch : Int) : Bool × LeaseColumns :=
  if row.leaseEpoch = leaseEpoch then (true, { row with lastSeen := some i.now })
  else (false, row)

/-- The save of `on_agent_disconnected`. -/
def release (row : LeaseColumns) : LeaseColumns :=
  { row with connected := false, lastSeen := some i.now }

end LeaseColumns

/-- The columns a task save names in its `update_fields`; `done` names `is_done` and
`finished_at`, and no save in the source sets `is_done` back. -/
structure TaskUpdate where
  latestEventKind : Option TaskEventKind := none
  done : Bool := false
  latestInstructKind : Option TaskInstructKind := none
  deriving DecidableEq, Repr

def TaskUpdate.apply (u : TaskUpdate) (now : Time) (task : Task) : Task :=
  { task with
    latestEventKind := u.latestEventKind.getD task.latestEventKind
    latestInstructKind := u.latestInstructKind.getD task.latestInstructKind
    isDone := task.isDone || u.done
    finishedAt := if u.done then some now else task.finishedAt }

/-- `_claim_task_transition_sync` on the row it has locked. -/
def Task.claimTransition (task : Task) (now : Time) (toKind : TaskEventKind) (markDone : Bool)
    (skipIfKind : Option TaskEventKind) : Bool × Task :=
  if task.isDone || skipIfKind == some task.latestEventKind then (false, task)
  else (true, TaskUpdate.apply { latestEventKind := some toKind, done := markDone } now task)

/-! ## Statements -/

/-- The row as a query loads it: the arguments come from a `jsonb` column. -/
def Task.loaded (task : Task) : Task := { task with args := task.args.map Json.asJsonbMembers }

/-- A row of the in-flight query, with what `select_related` joins to it. -/
structure InFlight where
  id : TaskId
  task : Task
  implementation : Option Implementation
  action : Option Action

/-- What `_build_redispatch_assign_sync` loads. -/
structure RedispatchSource where
  task : Task
  implementation : Option (ImplementationId × Implementation)
  action : Option Action
  caller : Option Caller

inductive Query where
  | uuid
  | choice (n : Nat)
  | lease (agent : AgentId)
  /-- The agent row, and the clock for the liveness check on it. -/
  | agentIsLive (agent : AgentId)
  | agentIsAvailable (agent : AgentId)
  | agent (id : AgentId)
  | staleAgents
  | orphanedExecutors
  | task (id : TaskId)
  | taskImplementation (id : TaskId)
  | taskByReference (caller : CallerId) (reference : String)
  | openTasksOfRoot (root : TaskId)
  | openRootTasks (caller : CallerId)
  | unfoldSource (child : TaskId)
  | inFlight (agent : AgentId)
  | redispatchSource (id : TaskId)
  /-- For a task whose row is at hand. -/
  | mint (id : TaskId) (ctx : CallerContext)
  /-- For a task whose row was loaded again. -/
  | mintLoaded (id : TaskId) (ctx : CallerContext)
  | rolesForCaller (caller : CallerId)
  | implementation (id : ImplementationId)
  | availableImplementation (action : ActionId)
  | implementationsOfKey (actionKey : String) (agent : AgentId)
  | action (id : ActionId)
  | actionsOfHash (hash : String) (organization : Organization)
  | dependencies (implementation : ImplementationId)
  | appAgents (app : Option String) (organization : Organization)
  | mappedAgents (ids : List AgentId)
  | stateOf (agent : AgentId) (interface : String)

inductive LeaseStmt where
  | claim (agent : AgentId) (connection : Option ConnectionId) (session : Option SessionId)
    (force : Bool)
  | revoke (agent : AgentId)
  | renew (agent : AgentId) (leaseEpoch : Int)
  | release (agent : AgentId)

/-- The identity columns an agent is looked up by, and the columns an upsert writes. -/
structure AgentIdentity where
  client : Client
  user : User
  organization : Organization
  deriving DecidableEq, Repr

structure AgentDefaults where
  name : String
  app : String
  release : String
  deriving DecidableEq, Repr

inductive AgentStmt where
  /-- A save without `update_fields`: every column. -/
  | save (id : AgentId) (row : Agent)
  | saveTransport (id : AgentId) (kind : Option AgentKind) (hookUrl hookUrlSecret : Option String)
  | getOrCreate (identity : AgentIdentity) (defaults : AgentDefaults)
  | updateOrCreate (identity : AgentIdentity) (defaults : AgentDefaults) (hash : String)
  | pin (id : AgentId) (user : User) (on : Bool)

inductive TaskStmt where
  | create (row : Task)
  | createEvent (event : TaskEvent)
  | save (id : TaskId) (update : TaskUpdate)
  | claimTransition (id : TaskId) (toKind : TaskEventKind) (markDone : Bool)
    (skipIfKind : Option TaskEventKind)

/-- The log of an agent's states, and its locks. -/
inductive StateStmt where
  | getOrCreateSession (agent : AgentId) (sessionId : String)
  | createPatch (row : Patch)
  | createSnapshot (row : Snapshot)
  | updateLock (agent : AgentId) (key : String) (task : TaskId)
  | createLock (agent : AgentId) (key : String) (task : TaskId)
  | releaseLocks (agent : AgentId) (key : String)

inductive DeliverStmt where
  | push (agent : AgentId) (m : ToAgentMessage)
  | post (agent : AgentId) (m : ToAgentMessage)
  | send (connection : ConnectionId) (m : ToAgentMessage)

inductive TimerStmt where
  | schedule (server : ServerId) (registry : Registry) (key : Nat) (delay : Time)
  | cancel (server : ServerId) (registry : Registry) (key : Nat)

inductive Stmt where
  | read (q : Query)
  | lease (c : LeaseStmt)
  | agent (c : AgentStmt)
  | getOrCreateCaller (identity : AgentIdentity)
  | task (c : TaskStmt)
  | state (c : StateStmt)
  | deliver (c : DeliverStmt)
  | timer (c : TimerStmt)

/-! ## Answers -/

@[reducible] def Query.Ans : Query → Type
  | uuid => String
  | choice _ => Nat
  | lease _ => Option LeaseColumns
  | agentIsLive _ => Option Bool
  | agentIsAvailable _ => Option Bool
  | agent _ => Option Agent
  | staleAgents => List AgentId
  | orphanedExecutors => List AgentId
  | task _ => Option Task
  | taskImplementation _ => Option (Task × Option Implementation)
  | taskByReference _ _ => Option TaskId
  | openTasksOfRoot _ => List (TaskId × Task)
  | openRootTasks _ => List (TaskId × Task)
  | unfoldSource _ => Option (Option (TaskId × Option Implementation))
  | inFlight _ => List InFlight
  | redispatchSource _ => Option RedispatchSource
  | mint _ _ => Except String (Option Token)
  | mintLoaded _ _ => Except String (Option Token)
  | rolesForCaller _ => List String
  | implementation _ => Option (Implementation × Option Action)
  | availableImplementation _ => Option (ImplementationId × Implementation)
  | implementationsOfKey _ _ => List ImplementationId
  | action _ => Option Action
  | actionsOfHash _ _ => List (ActionId × Action)
  | dependencies _ => List Dependency
  | appAgents _ _ => List AgentId
  | mappedAgents _ => List AgentId
  | stateOf .. => Option StateId

/-- `none` where the row does not exist. -/
@[reducible] def LeaseStmt.Ans : LeaseStmt → Type
  | claim .. => Option ClaimAnswer
  | revoke _ => Option Bool
  | renew .. => Bool
  | release _ => Unit

@[reducible] def AgentStmt.Ans : AgentStmt → Type
  | save .. => Unit
  | saveTransport .. => Unit
  | getOrCreate .. => AgentId
  | updateOrCreate .. => AgentId
  | pin .. => Unit

/-- `none` and `false` where a foreign key points nowhere or the row does not exist. -/
@[reducible] def TaskStmt.Ans : TaskStmt → Type
  | create _ => Option TaskId
  | createEvent _ => Bool
  | save .. => Unit
  | claimTransition .. => Option Bool

/-- An error where several rows match, and `false` where a foreign key points nowhere. A lock that is
updated says whether there was a row. -/
@[reducible] def StateStmt.Ans : StateStmt → Type
  | getOrCreateSession .. => Except Error SessionKey
  | createPatch _ => Bool
  | createSnapshot _ => Bool
  | updateLock .. => Except Error Bool
  | createLock .. => Except Error Unit
  | releaseLocks .. => Unit

@[reducible] def Stmt.Ans : Stmt → Type
  | read q => q.Ans
  | lease c => c.Ans
  | agent c => c.Ans
  | getOrCreateCaller _ => CallerId
  | task c => c.Ans
  | state c => c.Ans
  | deliver _ => Unit
  | timer _ => Unit

abbrev Statements : Lang := ⟨Stmt, Stmt.Ans⟩

/-- A function of the backend: what it issues, and what it returns or raises. -/
abbrev Handler (α : Type) := Prog Statements Error α

/-! ## Execution -/

namespace Database

variable (db : Database)

def inFlightRow (id : TaskId) (task : Task) : InFlight where
  id := id
  task := task
  implementation := task.implementation.bind db.implementations.get
  action := db.actions.get task.action

/-- `Task.objects.filter(agent_id=…, is_done=False)`. -/
def inFlight (rank : Nat → Nat) (agent : AgentId) : List InFlight :=
  (db.tasks.selectBy rank fun _ task => task.agent = agent && !task.isDone).map fun row =>
    db.inFlightRow row.1 row.2

/-- A task's parent and the parent's implementation: `none` where there is no such task, and
`some none` where it has no parent. -/
def unfoldSource (child : TaskId) : Option (Option (TaskId × Option Implementation)) :=
  (db.tasks.get child).map fun task =>
    task.parent.bind fun parent =>
      (db.tasks.get parent).map fun parentTask =>
        (parent, parentTask.implementation.bind db.implementations.get)

def agentHas (id : AgentId) (p : Agent → Bool) : Bool := (db.agents.get id).any p

end Database

def Query.eval (S : Settings) (i : Input) (db : Database) : (q : Query) → q.Ans
  | .uuid => i.uuid
  | .choice n => i.pick % n
  | .lease a => (db.agents.get a).map (·.toLeaseColumns)
  | .agentIsLive a =>
    (db.agents.get a).map fun row => Liveness.agentIsLive S i.now row.connected row.lastSeen
  | .agentIsAvailable a => (db.agents.get a).map (Liveness.agentIsAvailable S i.now)
  | .agent id => db.agents.get id
  | .staleAgents =>
    (db.agents.selectBy i.rank fun _ agent =>
      agent.kind = .websocket && Liveness.staleAgentQ S i.now agent.toLeaseColumns).map (·.1)
  | .orphanedExecutors =>
    (db.agents.selectBy i.rank fun id agent =>
      agent.kind = .websocket && !agent.connected
        && agent.lastSeen.any (fun seen => decide (seen < i.now - S.graceSeconds))
        && !(db.inFlight i.rank id).isEmpty).map (·.1)
  | .task id => db.tasks.get id
  | .taskImplementation id =>
    (db.tasks.get id).map fun row => (row, row.implementation.bind db.implementations.get)
  | .taskByReference caller reference =>
    (db.tasks.select fun _ task =>
      task.caller = some caller && task.reference = reference).head?.map (·.1)
  | .openTasksOfRoot root =>
    db.tasks.selectBy i.rank fun _ task => task.root = some root && !task.isDone
  | .openRootTasks caller =>
    db.tasks.selectBy i.rank fun _ task =>
      task.caller = some caller && task.root.isNone && !task.isDone
  | .unfoldSource child => db.unfoldSource child
  | .inFlight a => db.inFlight i.rank a
  | .redispatchSource id =>
    (db.tasks.get id).map fun task => {
      task := task.loaded
      implementation := task.implementation.bind fun impl =>
        (db.implementations.get impl).map (impl, ·)
      action := db.actions.get task.action
      caller := task.caller.bind db.callers.get }
  | .mint id ctx =>
    match db.tasks.get id with
    | none => .ok none
    | some row => Provenance.mintTokenForTask S db i.now i.uuid id row ctx
  | .mintLoaded id ctx =>
    match db.tasks.get id with
    | none => .ok none
    | some row => Provenance.mintTokenForTask S db i.now i.uuid id row.loaded ctx
  | .rolesForCaller caller =>
    ((db.callers.get caller).map (Provenance.rolesForCaller db)).getD []
  | .implementation id =>
    (db.implementations.get id).map fun impl => (impl, db.actions.get impl.action)
  | .availableImplementation a =>
    (db.implementations.select fun _ impl =>
      impl.action = a
        && db.agentHas impl.agent (Liveness.agentAvailableQ S i.now)).head?
  | .implementationsOfKey actionKey a =>
    (db.implementations.select fun _ impl =>
      impl.agent = a
        && (db.actions.get impl.action).any (fun row => row.key = actionKey)).map (·.1)
  | .action id => db.actions.get id
  | .actionsOfHash hash organization =>
    db.actions.select fun _ row => row.hash = hash && row.organization = organization
  | .dependencies impl =>
    (db.dependencies.selectBy i.rank fun _ dep => dep.implementation = impl).map (·.2)
  | .appAgents app organization =>
    (db.agents.selectBy i.rank fun _ agent =>
      some agent.app = app && agent.organization = organization
        && Liveness.agentAvailableQ S i.now agent).map (·.1)
  | .mappedAgents ids =>
    (db.agents.selectBy i.rank fun id agent =>
      ids.contains id && Liveness.agentAvailableQ S i.now agent).map (·.1)
  | .stateOf a interface =>
    (db.states.select fun _ state => state.agent = a && state.interface = interface).head?.map (·.1)

/-- The row change of a lease statement on a locked row, with its answer. -/
def LeaseStmt.onRow (S : Settings) (i : Input) (row : LeaseColumns) :
    (c : LeaseStmt) → c.Ans × LeaseColumns
  | .claim _ connection session force =>
    let (answer, row) := row.claim S i connection session force
    (some answer, row)
  | .revoke _ =>
    let (won, row) := row.revoke S i
    (some won, row)
  | .renew _ leaseEpoch => row.renew i leaseEpoch
  | .release _ => ((), row.release i)

/-- The answer where there is no such agent. -/
def LeaseStmt.missing : (c : LeaseStmt) → c.Ans
  | .claim .. => none
  | .revoke _ => none
  | .renew .. => false
  | .release _ => ()

def LeaseStmt.target : LeaseStmt → AgentId
  | .claim agent .. => agent
  | .revoke agent => agent
  | .renew agent _ => agent
  | .release agent => agent

def Agent.setLease (agent : Agent) (row : LeaseColumns) : Agent :=
  { agent with toLeaseColumns := row }

def LeaseStmt.exec (S : Settings) (i : Input) (c : LeaseStmt) (db : Database) :
    c.Ans × Database :=
  match db.agents.get c.target with
  | none => (c.missing, db)
  | some agent =>
    let (answer, row) := c.onRow S i agent.toLeaseColumns
    (answer, { db with agents := db.agents.modify c.target fun agent => agent.setLease row })

namespace Database

variable (db : Database)

/-- The agent of an identity: the columns are unique together. -/
def agentOf? (identity : AgentIdentity) : Option AgentId :=
  (db.agents.select fun _ agent =>
    agent.client = identity.client && agent.user = identity.user
      && agent.organization = identity.organization).head?.map (·.1)

def callerOf? (identity : AgentIdentity) : Option CallerId :=
  (db.callers.select fun _ caller =>
    caller.client = identity.client && caller.user = identity.user
      && caller.organization = identity.organization).head?.map (·.1)

end Database

def AgentIdentity.newAgent (identity : AgentIdentity) (defaults : AgentDefaults) (hash : String) :
    Agent where
  name := defaults.name
  app := defaults.app
  release := defaults.release
  hash := hash
  user := identity.user
  client := identity.client
  organization := identity.organization

def AgentStmt.exec (c : AgentStmt) (db : Database) : c.Ans × Database :=
  match c with
  | .save id row => ((), { db with agents := db.agents.modify id fun _ => row })
  | .saveTransport id kind hookUrl hookUrlSecret =>
    ((), { db with agents := db.agents.modify id fun agent => { agent with
      kind := kind.getD agent.kind
      hookUrl := hookUrl.or agent.hookUrl
      hookUrlSecret := hookUrlSecret.or agent.hookUrlSecret } })
  | .getOrCreate identity defaults =>
    match db.agentOf? identity with
    | some id => (id, db)
    | none =>
      (db.agents.next, { db with agents := db.agents.insert (identity.newAgent defaults "") })
  | .updateOrCreate identity defaults hash =>
    match db.agentOf? identity with
    | some id =>
      (id, { db with agents := db.agents.modify id fun agent => { agent with
        name := defaults.name
        app := defaults.app
        release := defaults.release
        hash := hash } })
    | none =>
      (db.agents.next, { db with agents := db.agents.insert (identity.newAgent defaults hash) })
  | .pin id user on =>
    ((), { db with pins :=
      if on then (if db.pins.contains (id, user) then db.pins else db.pins ++ [(id, user)])
      else db.pins.filter (· != (id, user)) })

def Database.hasTask (db : Database) (id : Option TaskId) : Bool :=
  match id with
  | none => true
  | some id => (db.tasks.get id).isSome

/-- The foreign keys of a task row point to rows. -/
def Database.admits (db : Database) (row : Task) : Bool :=
  db.hasTask row.parent && db.hasTask row.root && (db.agents.get row.agent).isSome
    && (db.actions.get row.action).isSome
    && row.implementation.all (fun id => (db.implementations.get id).isSome)
    && row.caller.all (fun id => (db.callers.get id).isSome)

def TaskStmt.exec (i : Input) (c : TaskStmt) (db : Database) : c.Ans × Database :=
  match c with
  | .create row =>
    if db.admits row then
      (some db.tasks.next, { db with tasks := db.tasks.insert row })
    else (none, db)
  | .createEvent event =>
    if db.hasTask (some event.task) then (true, { db with events := db.events ++ [event] })
    else (false, db)
  | .save id update =>
    ((), { db with tasks := db.tasks.modify id (update.apply i.now) })
  | .claimTransition id toKind markDone skipIfKind =>
    match db.tasks.get id with
    | none => (none, db)
    | some task =>
      let (won, row) := task.claimTransition i.now toKind markDone skipIfKind
      (some won, { db with tasks := db.tasks.modify id fun _ => row })

/-- The foreign keys of a log entry point to rows. -/
def Database.logs (db : Database) (state : StateId) (agent : Option AgentId)
    (session : Option SessionKey) (task : Option TaskId) : Bool :=
  (db.states.get state).isSome && agent.all (fun a => (db.agents.get a).isSome)
    && session.all (fun s => (db.sessions.get s).isSome) && db.hasTask task

def StateStmt.exec (i : Input) (c : StateStmt) (db : Database) : c.Ans × Database :=
  match c with
  | .getOrCreateSession agent sessionId =>
    if (db.agents.get agent).isNone then (.error .integrityError, db)
    else match db.sessions.updateOrCreate (.multipleObjectsReturned "Session")
        (fun s => s.agent = agent && s.sessionId = sessionId) ⟨agent, sessionId, i.now⟩ id with
    | .ok (sessions, key) => (.ok key, { db with sessions := sessions })
    | .error e => (.error e, db)
  | .createPatch row =>
    if db.logs row.state row.agent row.session row.task then
      (true, { db with patches := db.patches ++ [{ row with timestamp := i.now }] })
    else (false, db)
  | .createSnapshot row =>
    if db.logs row.state row.agent row.session none then
      (true, { db with snapshots := db.snapshots ++ [{ row with timestamp := i.now }] })
    else (false, db)
  -- The row is selected for update, so nothing comes between this and the save.
  | .updateLock agent key task =>
    match db.locks.select fun _ l => l.agent = agent && l.key = key with
    | [] => (.ok false, db)
    | [(id, l)] =>
      if (db.agents.get l.agent).isNone || !db.hasTask (some task) then (.error .integrityError, db)
      else (.ok true, { db with locks := db.locks.modify id fun l => { l with holdBy := some task } })
    | _ => (.error (.multipleObjectsReturned "Lock"), db)
  -- No constraint keeps a second row out.
  | .createLock agent key task =>
    if (db.agents.get agent).isNone || !db.hasTask (some task) then (.error .integrityError, db)
    else (.ok (), { db with
      locks := db.locks.insert { agent := agent, key := key, holdBy := some task } })
  | .releaseLocks agent key =>
    ((), { db with locks := db.locks.adjust fun l =>
      if l.agent = agent && l.key = key then { l with holdBy := none } else l })

def DeliverStmt.exec (c : DeliverStmt) (w : World) : World :=
  match c with
  | .push agent m => { w with pushed := w.pushed ++ [(agent, m)] }
  | .post agent m => { w with posted := w.posted ++ [(agent, m)] }
  | .send connection m => { w with sent := w.sent ++ [(connection, m)] }

/-- The timers of `server` with one registry entry set. -/
def World.setTimer (w : World) (server : ServerId) (registry : Registry) (key : Nat)
    (due : Option Time) : World :=
  { w with timers := fun s r k =>
      if s = server ∧ r = registry ∧ k = key then due else w.timers s r k }

def TimerStmt.exec (i : Input) (c : TimerStmt) (w : World) : World :=
  match c with
  | .schedule server registry key delay => w.setTimer server registry key (some (i.now + delay))
  | .cancel server registry key => w.setTimer server registry key none

def exec (S : Settings) : Exec Statements Input World := fun i c w =>
  match c with
  | .read q => (q.eval S i w.db, w)
  | .lease c =>
    let (answer, db) := c.exec S i w.db
    (answer, { w with db := db })
  | .agent c =>
    let (answer, db) := c.exec w.db
    (answer, { w with db := db })
  | .getOrCreateCaller identity =>
    match w.db.callerOf? identity with
    | some id => (id, w)
    | none =>
      let row : Caller := ⟨identity.client, identity.user, identity.organization⟩
      (w.db.callers.next, { w with db := { w.db with callers := w.db.callers.insert row } })
  | .task c =>
    let (answer, db) := c.exec i w.db
    (answer, { w with db := db })
  | .state c =>
    let (answer, db) := c.exec i w.db
    (answer, { w with db := db })
  | .deliver c => ((), c.exec w)
  | .timer c => ((), c.exec i w)

/-! ## What the statements do, table by table -/

section Frames

variable {S : Settings} {i : Input} {w : World}

@[simp] theorem exec_read {q : Query} : (exec S i (.read q) w).2 = w := rfl

@[simp] theorem exec_timer_db {c : TimerStmt} : (exec S i (.timer c) w).2.db = w.db := by
  cases c <;> rfl

@[simp] theorem exec_deliver_db {c : DeliverStmt} : (exec S i (.deliver c) w).2.db = w.db := by
  cases c <;> rfl

theorem LeaseStmt.exec_frame (c : LeaseStmt) (db : Database) :
    ∃ agents, (c.exec S i db).2 = { db with agents := agents } := by
  simp only [LeaseStmt.exec]
  cases db.agents.get c.target with
  | none => exact ⟨db.agents, rfl⟩
  | some agent => exact ⟨_, rfl⟩

theorem AgentStmt.exec_frame (c : AgentStmt) (db : Database) :
    ∃ agents pins, (c.exec db).2 = { db with agents := agents, pins := pins } := by
  cases c with
  | save id row => exact ⟨_, _, rfl⟩
  | saveTransport id kind hookUrl hookUrlSecret => exact ⟨_, _, rfl⟩
  | getOrCreate identity defaults =>
    simp only [AgentStmt.exec]
    cases db.agentOf? identity with
    | none => exact ⟨_, _, rfl⟩
    | some id => exact ⟨db.agents, db.pins, rfl⟩
  | updateOrCreate identity defaults hash =>
    simp only [AgentStmt.exec]
    cases db.agentOf? identity <;> exact ⟨_, _, rfl⟩
  | pin id user on => exact ⟨_, _, rfl⟩

theorem TaskStmt.exec_frame (c : TaskStmt) (db : Database) :
    ∃ tasks events, (c.exec i db).2 = { db with tasks := tasks, events := events } := by
  cases c with
  | create row =>
    simp only [TaskStmt.exec]
    split
    · exact ⟨_, _, rfl⟩
    · exact ⟨db.tasks, db.events, rfl⟩
  | createEvent event =>
    simp only [TaskStmt.exec]
    split
    · exact ⟨_, _, rfl⟩
    · exact ⟨db.tasks, db.events, rfl⟩
  | save id update => exact ⟨_, _, rfl⟩
  | claimTransition id toKind markDone skip =>
    simp only [TaskStmt.exec]
    cases db.tasks.get id with
    | none => exact ⟨db.tasks, db.events, rfl⟩
    | some task => exact ⟨_, _, rfl⟩

theorem StateStmt.exec_frame (c : StateStmt) (db : Database) :
    ∃ sessions patches snapshots locks, (c.exec i db).2 = { db with
      sessions := sessions, patches := patches, snapshots := snapshots, locks := locks } := by
  cases c with
  | getOrCreateSession agent sessionId =>
    simp only [StateStmt.exec]
    split
    · exact ⟨db.sessions, db.patches, db.snapshots, db.locks, rfl⟩
    split
    · exact ⟨_, _, _, _, rfl⟩
    · exact ⟨db.sessions, db.patches, db.snapshots, db.locks, rfl⟩
  | createPatch row =>
    simp only [StateStmt.exec]
    split
    · exact ⟨_, _, _, _, rfl⟩
    · exact ⟨db.sessions, db.patches, db.snapshots, db.locks, rfl⟩
  | createSnapshot row =>
    simp only [StateStmt.exec]
    split
    · exact ⟨_, _, _, _, rfl⟩
    · exact ⟨db.sessions, db.patches, db.snapshots, db.locks, rfl⟩
  | updateLock agent key task =>
    simp only [StateStmt.exec]
    split
    · exact ⟨db.sessions, db.patches, db.snapshots, db.locks, rfl⟩
    · split
      · exact ⟨db.sessions, db.patches, db.snapshots, db.locks, rfl⟩
      · exact ⟨_, _, _, _, rfl⟩
    · exact ⟨db.sessions, db.patches, db.snapshots, db.locks, rfl⟩
  | createLock agent key task =>
    simp only [StateStmt.exec]
    split
    · exact ⟨db.sessions, db.patches, db.snapshots, db.locks, rfl⟩
    · exact ⟨_, _, _, _, rfl⟩
  | releaseLocks agent key => exact ⟨_, _, _, _, rfl⟩

/-- A statement that is none on a task writes agents, pins, callers, and the log and the locks of
the states at most. -/
theorem exec_frame {c : Stmt} (h : ∀ s, c ≠ .task s) :
    ∃ agents pins callers sessions patches snapshots locks,
      (exec S i c w).2.db = { w.db with
        agents := agents, pins := pins, callers := callers, sessions := sessions
        patches := patches, snapshots := snapshots, locks := locks } := by
  have hself : ∃ agents pins callers sessions patches snapshots locks, w.db = { w.db with
      agents := agents, pins := pins, callers := callers, sessions := sessions
      patches := patches, snapshots := snapshots, locks := locks } :=
    ⟨_, _, _, _, _, _, _, rfl⟩
  cases c with
  | read q => exact hself
  | lease c =>
    obtain ⟨agents, hdb⟩ := LeaseStmt.exec_frame (S := S) (i := i) c w.db
    exact ⟨agents, _, _, _, _, _, _, hdb⟩
  | agent c =>
    obtain ⟨agents, pins, hdb⟩ := AgentStmt.exec_frame c w.db
    exact ⟨agents, pins, _, _, _, _, _, hdb⟩
  | getOrCreateCaller identity =>
    simp only [exec]
    cases w.db.callerOf? identity with
    | none => exact ⟨_, _, _, _, _, _, _, rfl⟩
    | some id => exact hself
  | task c => exact absurd rfl (h c)
  | state c =>
    obtain ⟨sessions, patches, snapshots, locks, hdb⟩ := StateStmt.exec_frame (i := i) c w.db
    exact ⟨_, _, _, sessions, patches, snapshots, locks, hdb⟩
  | deliver c => rw [exec_deliver_db]; exact hself
  | timer c => rw [exec_timer_db]; exact hself

/-- No statement changes the implementations or the actions. -/
theorem exec_implementations {c : Stmt} :
    (exec S i c w).2.db.implementations = w.db.implementations ∧
      (exec S i c w).2.db.actions = w.db.actions := by
  by_cases hc : ∃ s, c = .task s
  · obtain ⟨s, rfl⟩ := hc
    obtain ⟨tasks, events, hdb⟩ := TaskStmt.exec_frame (i := i) s w.db
    show (s.exec i w.db).2.implementations = _ ∧ (s.exec i w.db).2.actions = _
    rw [hdb]
    exact ⟨rfl, rfl⟩
  · obtain ⟨agents, pins, callers, sessions, patches, snapshots, locks, hdb⟩ := exec_frame (S := S) (i := i) (w := w)
      fun s hs => hc ⟨s, hs⟩
    rw [hdb]
    exact ⟨rfl, rfl⟩

@[simp] theorem exec_task_agents {c : TaskStmt} :
    (exec S i (.task c) w).2.db.agents = w.db.agents := by
  obtain ⟨tasks, events, hdb⟩ := TaskStmt.exec_frame (i := i) c w.db
  show (c.exec i w.db).2.agents = _
  rw [hdb]

@[simp] theorem exec_state_agents {c : StateStmt} :
    (exec S i (.state c) w).2.db.agents = w.db.agents := by
  obtain ⟨sessions, patches, snapshots, locks, hdb⟩ := StateStmt.exec_frame (i := i) c w.db
  show (c.exec i w.db).2.agents = _
  rw [hdb]

@[simp] theorem exec_getOrCreateCaller_agents {identity : AgentIdentity} :
    (exec S i (.getOrCreateCaller identity) w).2.db.agents = w.db.agents := by
  simp only [exec]
  cases w.db.callerOf? identity <;> rfl

@[simp] theorem Agent.setLease_toLeaseColumns {agent : Agent} {row : LeaseColumns} :
    (agent.setLease row).toLeaseColumns = row := rfl

@[simp] theorem Agent.setLease_self {agent : Agent} :
    agent.setLease agent.toLeaseColumns = agent := rfl

/-- A lease statement changes the lease columns of its agent, as its row function says, and
nothing else of any agent. -/
theorem LeaseStmt.get_exec {c : LeaseStmt} {db : Database} {a : AgentId} :
    (c.exec S i db).2.agents.get a =
      if a = c.target then
        (db.agents.get a).map fun agent => agent.setLease (c.onRow S i agent.toLeaseColumns).2
      else db.agents.get a := by
  simp only [LeaseStmt.exec]
  by_cases ha : a = c.target
  · subst ha
    cases h : db.agents.get c.target with
    | none => simp [h]
    | some agent => simp [h]
  · simp only [ha, if_false]
    cases h : db.agents.get c.target with
    | none => rfl
    | some agent => exact Table.get_modify_of_ne ha

/-- An agent that is there stays there. -/
theorem exec_agents_there {c : Stmt} {a : AgentId} (h : (w.db.agents.get a).isSome = true) :
    ((exec S i c w).2.db.agents.get a).isSome = true := by
  obtain ⟨agent, hg⟩ := Option.isSome_iff_exists.mp h
  have hmodify : ∀ {k : AgentId} {f : Agent → Agent},
      ((w.db.agents.modify k f).get a).isSome = true := by
    intro k f
    rw [Table.get_modify]
    split <;> simp [hg]
  have hinsert : ∀ {row : Agent}, ((w.db.agents.insert row).get a).isSome = true := by
    intro row
    rw [Table.get_insert_of_get hg]
    rfl
  cases c with
  | read q => exact h
  | lease c =>
    show ((c.exec S i w.db).2.agents.get a).isSome = true
    rw [LeaseStmt.get_exec]
    split <;> simp [hg]
  | agent c =>
    show ((c.exec w.db).2.agents.get a).isSome = true
    cases c with
    | save id row => exact hmodify
    | saveTransport id kind hookUrl hookUrlSecret => exact hmodify
    | getOrCreate identity defaults =>
      simp only [AgentStmt.exec]
      split
      · exact h
      · exact hinsert
    | updateOrCreate identity defaults hash =>
      simp only [AgentStmt.exec]
      split
      · exact hmodify
      · exact hinsert
    | pin id user on => exact h
  | getOrCreateCaller identity => rw [exec_getOrCreateCaller_agents]; exact h
  | task c => rw [exec_task_agents]; exact h
  | state c => rw [exec_state_agents]; exact h
  | deliver c => rw [exec_deliver_db]; exact h
  | timer c => rw [exec_timer_db]; exact h

/-- A lease statement that leaves the row as it is leaves the database as it is. -/
theorem LeaseStmt.exec_eq_self {c : LeaseStmt} {db : Database}
    (h : ∀ agent, db.agents.get c.target = some agent →
      (c.onRow S i agent.toLeaseColumns).2 = agent.toLeaseColumns) :
    (c.exec S i db).2 = db := by
  simp only [LeaseStmt.exec]
  cases hg : db.agents.get c.target with
  | none => rfl
  | some agent =>
    have hrow : db.agents.modify c.target
        (fun agent' => agent'.setLease (c.onRow S i agent.toLeaseColumns).2) = db.agents := by
      refine Table.modify_eq_self fun agent' h' => ?_
      cases hg.symm.trans h'
      rw [h agent hg, Agent.setLease_self]
    show { db with agents := _ } = db
    rw [hrow]

end Frames
end Rekuest
