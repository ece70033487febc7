import Rekuest.Settings

/-!
# Rekuest.Liveness

Is this websocket agent alive? `connected` and a heartbeat within the stale window. The two
`…Q` filters are the database's version of the two predicates.
-/

namespace Rekuest
namespace Liveness

variable (S : Settings) (now : Time)

def agentIsLive (connected : Bool) (lastSeen : Option Time) : Bool :=
  match lastSeen with
  | none => false
  | some seen => connected && decide (now - S.staleAfterSeconds < seen)

def agentIsStale (connected : Bool) (lastSeen : Option Time) : Bool :=
  connected && !agentIsLive S now connected lastSeen

def liveAgentQ (row : LeaseColumns) : Bool :=
  row.connected && match row.lastSeen with
    | none => false
    | some seen => decide (now - S.staleAfterSeconds < seen)

def staleAgentQ (row : LeaseColumns) : Bool :=
  row.connected && match row.lastSeen with
    | none => true
    | some seen => decide (seen < now - S.staleAfterSeconds)

/-- An agent that can receive work: a live websocket agent, or any webhook agent. -/
def agentIsAvailable (agent : Agent) : Bool :=
  match agent.kind with
  | .webhook => true
  | .websocket => agentIsLive S now agent.connected agent.lastSeen

/-- The filter `agent_available_q`. -/
def agentAvailableQ (agent : Agent) : Bool :=
  agent.kind == .webhook || liveAgentQ S now agent.toLeaseColumns

variable {S now}

@[simp] theorem agentIsLive_false {lastSeen : Option Time} :
    agentIsLive S now false lastSeen = false := by
  cases lastSeen <;> rfl

@[simp] theorem agentIsStale_false {lastSeen : Option Time} :
    agentIsStale S now false lastSeen = false := rfl

end Liveness
end Rekuest
