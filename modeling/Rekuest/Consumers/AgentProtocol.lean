import Rekuest.MessageRouter

/-!
# Rekuest.Consumers.AgentProtocol

One connection of an agent, over collaborators that are injected and may answer anything.

* `Call`: the calls that the handling of a frame makes: of collaborators, and of the object's own
  fields. `Connection`: these fields, and what was called so far with its answer.
* `receive`: parse, validate and dispatch one frame. `onRegister`: the handshake.
* `RegisteredSession.dispatch`: a frame after the handshake. `ping`, `timedOut`: a round of the
  heartbeat loop.
* `shutdown`: the teardown of the connection.
* `afterFrames`: the connection after a sequence of frames, handled one at a time. `afterEvents`:
  the same with the heartbeat loop running beside them.
-/

namespace Rekuest

open Interleave

namespace AgentProtocol

namespace Codes

def heartbeatNotResponded : Nat := 3001

def fromAgentMessageIsNotValidJson : Nat := 3002

def fromAgentMessageDoesNotMatchSchema : Nat := 3003

def agentIsBlocked : Nat := 4003

def agentAlreadyConnected : Nat := 4004

def agentReplaced : Nat := 4005

end Codes

/-- What a collaborator raises. A cancellation is no `Exception`. -/
inductive Raised where
  | exception (text : String)
  | unknownAgentMessage
  | cancelledError
  deriving DecidableEq, Repr

instance : Exceptions Raised where
  caught e := e != .cancelledError
  unknownAgentMessage := .unknownAgentMessage
  isUnknownAgentMessage e := e == .unknownAgentMessage
  valueError := .exception

/-- The agent of an authenticated registration. -/
structure AuthenticatedAgent where
  pk : AgentId
  blocked : Bool
  deriving DecidableEq, Repr

structure RegisteredSession where
  agent : AgentId
  sessionId : Option SessionId
  callerId : CallerId
  connectionId : ConnectionId
  leaseEpoch : Option Int
  deriving DecidableEq, Repr

inductive Outbound where
  | init (agent : AgentId) (inquiries : List TaskId)
  | heartbeat
  | protocolError (error : String)
  | reply (m : Reply)

inductive Loop where
  | listen | heartbeat
  deriving DecidableEq, Repr

/-! ## Calls -/

/-- A call of the backend that handles a message of a registered agent. -/
inductive BackendCall where
  | assign (agent : AgentId) (m : AssignRequest)
  | control (agent : AgentId) (m : FromAgentMessage)
  | report (agent : AgentId) (m : FromAgentMessage)

/-- A call that leaves the object. -/
inductive Collaborator where
  | authenticator (register : Register)
  | getOrCreateCallerId (agent : AgentId)
  | registerCaller (caller : CallerId)
  | registerConnection (agent : AgentId)
  | onAgentConnected (agent : AgentId) (connection : Option ConnectionId)
    (session : Option SessionId) (force : Bool)
  | kickOthers
  | renewAgentLease (agent : AgentId) (leaseEpoch : Option Int)
  | backend (call : BackendCall)
  | send (m : Outbound)
  | close (code : Nat)
  /-- `asyncio.create_task` of a loop of the session. -/
  | createTask (loop : Loop) (agent : AgentId)
  | onAgentDisconnected (agent : AgentId) (connection : Option ConnectionId)
  | queueClose

inductive Call where
  | collaborator (c : Collaborator)
  | receivedInitialPayload
  | setReceivedInitialPayload
  | session
  | setSession (session : RegisteredSession)
  /-- The call of `dispatch` on the session. -/
  | dispatch (session : RegisteredSession) (m : FromAgentMessage)
  /-- A heartbeat is to be answered. -/
  | armHeartbeat
  /-- The heartbeat that awaits its answer, if there is one, is resolved. -/
  | resolveHeartbeat
  /-- `stop_executing`: the listen loop, if there is one, is cancelled. -/
  | stopExecuting
  /-- The loop, if there is one, is cancelled and awaited, and what it raises is dropped. -/
  | cancelTask (loop : Loop)

@[reducible] def BackendCall.Result : BackendCall → Type
  | assign .. => TaskId × Bool
  | control .. => TaskId
  | report .. => Unit

@[reducible] def Collaborator.Result : Collaborator → Type
  | authenticator _ => AuthenticatedAgent
  | getOrCreateCallerId _ => CallerId
  | registerCaller _ => Unit
  | registerConnection _ => Unit
  | onAgentConnected .. => PersistBackend.LeaseClaim
  | kickOthers => Unit
  | renewAgentLease .. => Bool
  | backend call => call.Result
  | send _ => Unit
  | close _ => Unit
  | createTask .. => Unit
  | onAgentDisconnected .. => Unit
  | queueClose => Unit

@[reducible] def Call.Ans : Call → Type
  | collaborator c => Except Raised c.Result
  | receivedInitialPayload => Bool
  | session => Option RegisteredSession
  | _ => Unit

abbrev Calls : Lang := ⟨Call, Call.Ans⟩

/-- What the collaborators would answer to each call. -/
abbrev Answers := (c : Collaborator) → Except Raised c.Result

/-- A call with its answer. -/
structure Called where
  call : Call
  answer : call.Ans

structure Connection where
  receivedInitialPayload : Bool := false
  session : Option RegisteredSession := none
  calls : List Called := []

namespace Connection

def record (s : Connection) (c : Call) (answer : c.Ans) : Connection :=
  { s with calls := s.calls ++ [⟨c, answer⟩] }

/-- The fields answer for themselves, the collaborators as they like. -/
def exec : Exec Calls Answers Connection := fun i c s =>
  match c with
  | .collaborator c => (i c, s.record (.collaborator c) (i c))
  | .receivedInitialPayload => (s.receivedInitialPayload, s)
  | .setReceivedInitialPayload => ((), { s with receivedInitialPayload := true })
  | .session => (s.session, s)
  | .setSession session => ((), { s with session := some session }.record (.setSession session) ())
  | .dispatch session m => ((), s.record (.dispatch session m) ())
  | .armHeartbeat => ((), s.record .armHeartbeat ())
  | .resolveHeartbeat => ((), s.record .resolveHeartbeat ())
  | .stopExecuting => ((), s.record .stopExecuting ())
  | .cancelTask loop => ((), s.record (.cancelTask loop) ())

end Connection

/-! ## The protocol -/

abbrev Protocol (α : Type) := Prog Calls Raised α

abbrev perform (c : Call) : Protocol c.Ans := Prog.issue (L := Calls) c

/-- The call of a collaborator: what it returns, or what it raises. -/
def await (c : Collaborator) : Protocol c.Result :=
  (perform (.collaborator c)).bind fun answer => match answer with
    | .ok a => .ret a
    | .error e => .fail e

def closeWith (code : Nat) : Protocol Unit := await (.close code)

/-- `_send`: the only path to the transport. -/
def sendToAgentMessage (m : Outbound) : Protocol Unit := await (.send m)

/-- The backend that the session calls. -/
def portBackend : PersistBackendPort Calls Raised where
  onCallerAssign agent m := await (.backend (.assign agent m))
  onCallerCancel agent m autoInterrupt :=
    await (.backend (.control agent (.cancelRequest m autoInterrupt)))
  onCallerInterrupt agent m := await (.backend (.control agent (.interruptRequest m)))
  onCallerPause agent m := await (.backend (.control agent (.pauseRequest m)))
  onCallerResume agent m step := await (.backend (.control agent (.resumeRequest m step)))
  onAgentReport agent m := await (.backend (.report agent (.report m)))
  onAgentStatePatch agent m := await (.backend (.report agent (.statePatch m)))
  onAgentStateSnapshot agent m := await (.backend (.report agent (.stateSnapshot m)))
  onAgentSessionInit agent m := await (.backend (.report agent (.sessionInit m)))
  onAgentLock agent m := await (.backend (.report agent (.lock m)))
  onAgentUnlock agent key := await (.backend (.report agent (.unlock key)))

namespace RegisteredSession

variable (self : RegisteredSession)

/-- Renew the lease, and give up where it is lost. -/
def onAgentHeartbeat : Protocol Unit := do
  perform .resolveHeartbeat
  let renewed ← await (.renewAgentLease self.agent self.leaseEpoch)
  if renewed then return ()
  perform .stopExecuting
  closeWith Codes.agentReplaced

/-- What the session does with what the router returned or raised. -/
def deliver : Except Raised (Option Reply) → Protocol Unit
  | .ok none => .ret ()
  | .ok (some reply) => sendToAgentMessage (.reply reply)
  | .error e =>
    if Exceptions.isUnknownAgentMessage e then closeWith Codes.fromAgentMessageDoesNotMatchSchema
    else .fail e

/-- The message that a frame carries, on the session. -/
def dispatch (str : Raised → String) (m : FromAgentMessage) : Protocol Unit := do
  perform (.dispatch self m)
  match m with
  | .heartbeatEvent => self.onAgentHeartbeat
  | m =>
    let routed ←
      (MessageRouter.routeFromAgentMessage str portBackend self.agent m).attempt
    deliver routed

/-- A round of `heartbeat`, up to the wait for its answer. -/
def ping : Protocol Unit := do
  perform .armHeartbeat
  sendToAgentMessage .heartbeat

/-- The end of `heartbeat`: a round was not answered in time. -/
def timedOut : Protocol Unit := do
  perform .stopExecuting
  closeWith Codes.heartbeatNotResponded

def shutdown : Protocol Unit := do
  perform (.cancelTask .listen)
  perform (.cancelTask .heartbeat)
  await (.onAgentDisconnected self.agent (some self.connectionId))

end RegisteredSession

def alreadyConnectedMessage : String :=
  "Another connection is already registered for this agent. Reconnect with force to take over."

/-- Authenticate, claim the agent's write-lease, build the session, send `Init` and start the
loops. Each gate may close and return, which leaves the connection without a session. -/
def onRegister (connection : ConnectionId) (register : Register) : Protocol Unit := do
  let agent ← await (.authenticator register)
  if agent.blocked then closeWith Codes.agentIsBlocked
  else
    let caller ← await (.getOrCreateCallerId agent.pk)
    await (.registerCaller caller)
    await (.registerConnection agent.pk)
    let claim ← await (.onAgentConnected agent.pk (some connection) register.sessionId
      register.force)
    if !claim.claimed then
      sendToAgentMessage (.protocolError alreadyConnectedMessage)
      closeWith Codes.agentAlreadyConnected
    else
      if claim.displacedIncumbent then await .kickOthers
      perform (.setSession ⟨agent.pk, register.sessionId, caller, connection, claim.epoch⟩)
      sendToAgentMessage (.init agent.pk claim.tasks)
      await (.createTask .listen agent.pk)
      await (.createTask .heartbeat agent.pk)

inductive LoadsError where
  | jsonDecodeError
  | other (e : Raised)

/-- `json.loads`, and the validation of what it returns, with the text of its error. -/
structure Codec where
  Raw : Type
  loads : String → Except LoadsError Raw
  validate : Raw → Except String FromAgentMessage

/-- A validated message: the handshake first, then the session. -/
def handleMessage (str : Raised → String) (connection : ConnectionId) (m : FromAgentMessage) :
    Protocol Unit := do
  if !(← perform .receivedInitialPayload) then
    match m with
    | .register register =>
      perform .setReceivedInitialPayload
      onRegister connection register
    | _ => .fail (Exceptions.valueError "First message must be a register")
  else
    match ← perform .session with
    | some session => session.dispatch str m
    -- registration was attempted and rejected
    | none => closeWith Codes.fromAgentMessageDoesNotMatchSchema

/-- One inbound frame. One that is not text carries nothing. -/
def receive (codec : Codec) (str : Raised → String) (connection : ConnectionId) :
    Option String → Protocol Unit
  | none => closeWith Codes.fromAgentMessageIsNotValidJson
  | some text =>
    match codec.loads text with
    | .error .jsonDecodeError => closeWith Codes.fromAgentMessageIsNotValidJson
    | .error (.other e) => .fail e
    | .ok raw =>
      match codec.validate raw with
      | .error error => do
        sendToAgentMessage (.protocolError error)
        closeWith Codes.fromAgentMessageDoesNotMatchSchema
      | .ok m =>
        exceptException (handleMessage str connection m) fun _ =>
          closeWith Codes.fromAgentMessageDoesNotMatchSchema

/-- Tear down the session, if there is one, and release the queue. -/
def shutdown : Protocol Unit := do
  match ← perform .session with
  | some session => session.shutdown
  | none => .ret ()
  await .queueClose

/-- A step of the heartbeat loop, where a session runs one. -/
def beat (step : Protocol Unit) : Protocol Unit := do
  match ← perform .session with
  | some _ => step
  | none => return ()

/-- A frame, and what the collaborators answer while it is handled. -/
structure Frame where
  text : Option String
  answers : Nat → Answers

/-- What happens to a connection. The heartbeat loop shares no field with the handling of a frame
but the heartbeat that is pending, so its steps are placed between frames. -/
inductive Event where
  | frame (f : Frame)
  | ping (answers : Nat → Answers)
  | unanswered (answers : Nat → Answers)

section

variable (codec : Codec) (str : Raised → String) (connection : ConnectionId)

def Connection.receive (s : Connection) (f : Frame) : Connection :=
  ((AgentProtocol.receive codec str connection f.text).run Connection.exec f.answers s).state

/-- The connection after the frames, one handled after the other. -/
def afterFrames (frames : List Frame) : Connection :=
  frames.foldl (Connection.receive codec str connection) {}

def Connection.next (s : Connection) : Event → Connection
  | .frame f => s.receive codec str connection f
  | .ping answers => ((beat RegisteredSession.ping).run exec answers s).state
  | .unanswered answers => ((beat RegisteredSession.timedOut).run exec answers s).state

/-- The connection after the events. -/
def afterEvents (events : List Event) : Connection :=
  events.foldl (Connection.next codec str connection) {}

end

/-- The connection after its teardown. -/
def Connection.shutdown (s : Connection) (answers : Nat → Answers) : Connection :=
  (AgentProtocol.shutdown.run exec answers s).state

end AgentProtocol
end Rekuest
