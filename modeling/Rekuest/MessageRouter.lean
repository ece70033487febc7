import Rekuest.Backend
import Rekuest.Interleave.Wp
import Rekuest.PersistBackend

/-!
# Rekuest.MessageRouter

What an agent sends, and the routing of it to the persist backend, over any backend.

* `FromAgentMessage`: agent to backend. A task id on the wire is any text.
* `PersistBackendPort`: the backend as the router sees it.
* `routeFromAgentMessage`: the side effects of a message, and the reply to it.

The connection and the session of a request are left out: no handler reads them.
-/

namespace Rekuest

open Interleave

/-! ## Messages -/

structure Register where
  token : String
  force : Bool := false
  sessionId : Option SessionId := none

structure AssignRequest where
  id : Nat
  reference : String
  input : Backend.AssignInput := {}

structure ControlRequest where
  id : Nat
  task : String

/-- A report, with the task id and the texts as the agent wrote them. -/
structure WireReport where
  id : Nat
  seq : Option Nat := none
  task : String
  kind : ReportKind String

structure StatePatch where
  sessionId : String
  globalRev : Int
  stateName : String
  op : String
  path : String
  value : Json
  taskId : Option String := none

structure StateSnapshot where
  sessionId : String
  globalRev : Int
  snapshots : Dict Json

structure SessionInit where
  sessionId : String
  states : Dict Json

structure LockMessage where
  key : String
  task : String

inductive FromAgentMessage where
  | register (m : Register)
  | heartbeatEvent
  | assignRequest (m : AssignRequest)
  | cancelRequest (m : ControlRequest) (autoInterrupt : Option Time)
  | interruptRequest (m : ControlRequest)
  | pauseRequest (m : ControlRequest)
  | resumeRequest (m : ControlRequest) (step : Bool)
  | report (m : WireReport)
  | statePatch (m : StatePatch)
  | stateSnapshot (m : StateSnapshot)
  | sessionInit (m : SessionInit)
  | lock (m : LockMessage)
  | unlock (key : String)

/-- The reply to a message, which the transport delivers its own way. -/
inductive Reply where
  | eventAck (event : Nat) (task : String) (seq : Option Nat)
  | assignResponse (request : Nat) (reference : String) (task : Option String) (created : Bool)
    (error : Option String)
  | controlResponse (request : Nat) (task : String) (accepted : Bool) (error : Option String)
  deriving DecidableEq, Repr

/-! ## Exceptions -/

/-- Python's exceptions, as far as the transports tell them apart. -/
class Exceptions (ε : Type) where
  /-- Whether `except Exception` catches it. -/
  caught : ε → Bool
  unknownAgentMessage : ε
  /-- Whether `except UnknownAgentMessage` catches it. -/
  isUnknownAgentMessage : ε → Bool
  valueError : String → ε

/-- `try: p`, `except Exception as e: handle(e)`. -/
def exceptException {L : Lang} {ε α : Type} [Exceptions ε] (p : Prog L ε α)
    (handle : ε → Prog L ε α) : Prog L ε α :=
  p.attempt.bind fun r => match r with
    | .ok a => .ret a
    | .error e => if Exceptions.caught e then handle e else .fail e

section

variable {L : Lang} {ε α ι σ : Type} [Exceptions ε] {X : Exec L ι σ} {ok : ι → L.Stmt → σ → Prop}

/-- What is asked of a program whose exceptions are handled: what it raises is caught, or raised
again. -/
def Caught (X : Exec L ι σ) (ok : ι → L.Stmt → σ → Prop) (handle : ε → Prog L ε α)
    (Q : Except ε α → σ → Prop) : Except ε α → σ → Prop
  | .ok a, s => Q (.ok a) s
  | .error e, s =>
    (Exceptions.caught e = true → Prog.wp X ok (handle e) Q s) ∧
      (Exceptions.caught e = false → Q (.error e) s)

theorem wp_exceptException {p : Prog L ε α} {handle : ε → Prog L ε α}
    {Q : Except ε α → σ → Prop} {s : σ} :
    Prog.wp X ok (exceptException p handle) Q s ↔ Prog.wp X ok p (Caught X ok handle Q) s := by
  refine Prog.wp_bind.trans (Prog.wp_attempt.trans (iff_of_eq ?_))
  congr 1
  funext r s'
  cases r with
  | ok a => rfl
  | error e =>
    show Prog.wp X ok (if Exceptions.caught e = true then handle e else .fail e) Q s' = _
    cases hc : (Exceptions.caught e : Bool) with
    | true => simp [Caught, hc]
    | false => simp [Caught, hc, Prog.wp]

end

/-! ## Routing -/

/-- The surface of the backend that the router calls. -/
structure PersistBackendPort (L : Lang) (ε : Type) where
  onCallerAssign (agent : AgentId) (m : AssignRequest) : Prog L ε (TaskId × Bool)
  onCallerCancel (agent : AgentId) (m : ControlRequest) (autoInterrupt : Option Time) :
    Prog L ε TaskId
  onCallerInterrupt (agent : AgentId) (m : ControlRequest) : Prog L ε TaskId
  onCallerPause (agent : AgentId) (m : ControlRequest) : Prog L ε TaskId
  onCallerResume (agent : AgentId) (m : ControlRequest) (step : Bool) : Prog L ε TaskId
  /-- `on_agent_started`, `on_agent_log` and so on, by the kind of the report. -/
  onAgentReport (agent : AgentId) (m : WireReport) : Prog L ε Unit
  onAgentStatePatch (agent : AgentId) (m : StatePatch) : Prog L ε Unit
  onAgentStateSnapshot (agent : AgentId) (m : StateSnapshot) : Prog L ε Unit
  onAgentSessionInit (agent : AgentId) (m : SessionInit) : Prog L ε Unit
  onAgentLock (agent : AgentId) (m : LockMessage) : Prog L ε Unit
  onAgentUnlock (agent : AgentId) (key : String) : Prog L ε Unit

/-- Whether a report is acknowledged: the confirmations and the terminal ones. -/
def ReportKind.isAcked {Text : Type} : ReportKind Text → Bool
  | .log _ => false
  | .progress .. => false
  | .yield _ => false
  | _ => true

/-- The acknowledgement of a report that asks for one. -/
def WireReport.ack? (m : WireReport) : Option Reply :=
  if m.kind.isAcked then some (.eventAck m.id m.task m.seq) else none

namespace MessageRouter

variable {L : Lang} {ε : Type} [Exceptions ε] (str : ε → String)

/-- `_control`: the ack of a control request, a refusal where the operation raised. -/
def control (op : Prog L ε TaskId) (m : ControlRequest) : Prog L ε (Option Reply) :=
  exceptException (op.bind fun task => .ret (some (.controlResponse m.id (toString task) true none)))
    fun e => .ret (some (.controlResponse m.id m.task false (some (str e))))

def routeFromAgentMessage (backend : PersistBackendPort L ε) (agent : AgentId) :
    FromAgentMessage → Prog L ε (Option Reply)
  | .assignRequest m =>
    exceptException
      ((backend.onCallerAssign agent m).bind fun answer =>
        .ret (some (.assignResponse m.id m.reference (some (toString answer.1)) answer.2 none)))
      fun e => .ret (some (.assignResponse m.id m.reference none false (some (str e))))
  | .cancelRequest m autoInterrupt => control str (backend.onCallerCancel agent m autoInterrupt) m
  | .interruptRequest m => control str (backend.onCallerInterrupt agent m) m
  | .pauseRequest m => control str (backend.onCallerPause agent m) m
  | .resumeRequest m step => control str (backend.onCallerResume agent m step) m
  | .report m => (backend.onAgentReport agent m).bind fun _ => .ret m.ack?
  | .statePatch m => (backend.onAgentStatePatch agent m).bind fun _ => .ret none
  | .stateSnapshot m => (backend.onAgentStateSnapshot agent m).bind fun _ => .ret none
  | .sessionInit m => (backend.onAgentSessionInit agent m).bind fun _ => .ret none
  | .lock m => (backend.onAgentLock agent m).bind fun _ => .ret none
  | .unlock key => (backend.onAgentUnlock agent key).bind fun _ => .ret none
  | .register _ => .fail Exceptions.unknownAgentMessage
  | .heartbeatEvent => .fail Exceptions.unknownAgentMessage

end MessageRouter
end Rekuest
