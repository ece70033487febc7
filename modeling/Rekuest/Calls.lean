import Rekuest.Interleave.System
import Rekuest.AgentMutations
import Rekuest.Backend
import Rekuest.PersistBackend

/-!
# Rekuest.Calls

What agents, timers, sweeps and callers ask of the server processes, by who asks. Deletions are none
of these calls: those of an agent or an implementation, and the reaping of `implement_agent`.

* `ConnectionCall`: the connections of the agents, and the triggers of reconciliation.
* `AgentCall`: the writers of an agent row that are no part of its lease.
* `ReportCall`: the agents' reports, and the timer over a silent physical task.
* `PostmanCall`: assigns and control requests.
* `TaskCall`: those that touch a task once it is assigned: connections and reports.
* `runAll`: the calls run one at a time. `start`: they run side by side.
-/

namespace Rekuest

open Interleave

inductive ConnectionCall where
  | register (server : ServerId) (agent : AgentId) (connection : ConnectionId)
    (session : Option SessionId) (force : Bool)
  | renew (agent : AgentId) (leaseEpoch : Int)
  | disconnect (server : ServerId) (agent : AgentId) (connection : ConnectionId)
  | graceExpired (server : ServerId) (agent : AgentId)
  | sweep (server : ServerId)
  | reconcileTasks (server : ServerId)
  deriving DecidableEq

inductive AgentCall where
  | block (agent : AgentId) (reason : Option String)
  | unblock (agent : AgentId)
  | updateAgent (agent : AgentId) (name : Option String)
  | pinAgent (agent : AgentId) (user : User) (pin : Bool)
  | ensureAgent (identity : AgentIdentity) (defaults : AgentDefaults) (kind : Option AgentKind)
    (hookUrl hookUrlSecret : Option String)
  | implementAgent (identity : AgentIdentity) (defaults : AgentDefaults) (hash : Option String)
  deriving DecidableEq

inductive ReportCall where
  | report (server : ServerId) (report : Report)
  | silent (id : TaskId)

inductive PostmanCall where
  | assign (ctx : CallerContext) (input : Backend.AssignInput)
  | control (op : Backend.ControlOp) (id : TaskId)
  | callerAssign (agent : AgentId) (reference : String) (input : Backend.AssignInput)
  | callerControl (agent : AgentId) (op : Backend.ControlOp) (id : TaskId)
  | callerCancel (server : ServerId) (agent : AgentId) (id : TaskId)
    (autoInterrupt : Option Time)
  | escalate (id : TaskId)

/-- The calls that touch a task while it runs. -/
inductive TaskCall where
  | connection (c : ConnectionCall)
  | report (c : ReportCall)

inductive Call where
  | connection (c : ConnectionCall)
  | agent (c : AgentCall)
  | report (c : ReportCall)
  | postman (c : PostmanCall)

/-- The program, without what it returns. -/
def discard {α : Type} (p : Handler α) : Handler Unit := p.bind fun _ => .ret ()

section

variable (S : Settings)

def ConnectionCall.code : ConnectionCall → Handler Unit
  | register server agent connection session force =>
    discard (PersistBackend.onRegister server agent connection session force)
  | renew agent leaseEpoch => discard (PersistBackend.renewAgentLease agent leaseEpoch)
  | disconnect server agent connection =>
    PersistBackend.onAgentDisconnected S server agent (some connection)
  | graceExpired server agent => PersistBackend.reconcileOrphanedExecutorWork server agent
  | sweep server => discard (PersistBackend.reconcileStaleAgents server)
  | reconcileTasks server => PersistBackend.reconcileTasks server

def AgentCall.code : AgentCall → Handler Unit
  | block agent reason => Backend.block agent reason
  | unblock agent => Backend.unblock agent
  | updateAgent agent name => AgentMutations.updateAgent agent name
  | pinAgent agent user pin => AgentMutations.pinAgent agent user pin
  | ensureAgent identity defaults kind hookUrl hookUrlSecret =>
    discard (AgentMutations.ensureAgent identity defaults kind hookUrl hookUrlSecret)
  | implementAgent identity defaults hash =>
    discard (AgentMutations.implementAgent identity defaults hash)

def ReportCall.code : ReportCall → Handler Unit
  | report server r => discard (PersistBackend.onReport S server r)
  | silent id => PersistBackend.reconcileSilentPhysicalOp id

def TaskCall.code : TaskCall → Handler Unit
  | connection c => c.code S
  | report c => c.code S

def TaskCall.isReport : TaskCall → Bool
  | connection _ => false
  | report _ => true

def PostmanCall.code : PostmanCall → Handler Unit
  | assign ctx input => discard (Backend.assign S ctx input)
  | control op id => discard (Backend.requestControl op id)
  | callerAssign agent reference input =>
    discard (Backend.callerAssignSync S agent reference input)
  | callerControl agent op id => discard (Backend.callerControlSync agent op id)
  | callerCancel server agent id autoInterrupt =>
    discard (Backend.onCallerCancel server agent id autoInterrupt)
  | escalate id => Backend.escalateToInterrupt id

def Call.code : Call → Handler Unit
  | connection c => c.code S
  | agent c => c.code
  | report c => c.code S
  | postman c => c.code S

/-- The world after the program ran alone. -/
def runAlone {α : Type} (p : Handler α) (i : Nat → Input) (w : World) : World :=
  (p.run (exec S) i w).state

/-- The world after the calls ran one after the other, each with its own inputs. -/
def runAll {κ : Type} (code : κ → Handler Unit) (w : World) (calls : List (κ × (Nat → Input))) :
    World :=
  calls.foldl (fun w c => runAlone S (code c.1) c.2 w) w

theorem runAll_cons {κ : Type} {code : κ → Handler Unit} {w : World} {c : κ × (Nat → Input)}
    {calls : List (κ × (Nat → Input))} :
    runAll S code w (c :: calls) = runAll S code (runAlone S (code c.1) c.2 w) calls := rfl

theorem runAll_append {κ : Type} {code : κ → Handler Unit} {w : World}
    {calls calls' : List (κ × (Nat → Input))} :
    runAll S code w (calls ++ calls') = runAll S code (runAll S code w calls) calls' :=
  List.foldl_append

/-- The system in which process `(c, n)` is the `n`-th run of call `c`. -/
def start {κ : Type} (code : κ → Handler Unit) (w : World) :
    Sys Statements Error Unit (κ × Nat) World :=
  ⟨w, fun p => code p.1⟩

end
end Rekuest
