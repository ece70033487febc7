import Rekuest.Store

/-!
# Rekuest.Transport

The statements as functions of the backend, and how a message reaches an agent.
-/

namespace Rekuest

open Interleave

abbrev ask (q : Query) : Handler q.Ans := Prog.issue (L := Statements) (.read q)

abbrev getTask (id : TaskId) : Handler (Option Task) := ask (.task id)

abbrev getAgent (id : AgentId) : Handler (Option Agent) := ask (.agent id)

/-- The agent row, as the lease code reads it: it looks at the lease columns only. -/
abbrev getLease (agent : AgentId) : Handler (Option LeaseColumns) := ask (.lease agent)

abbrev issueTask (c : TaskStmt) : Handler c.Ans := Prog.issue (L := Statements) (.task c)

abbrev createTask (row : Task) : Handler (Option TaskId) := issueTask (.create row)

abbrev saveTask (id : TaskId) (update : TaskUpdate) : Handler Unit :=
  issueTask (.save id update)

/-- `TaskEvent.objects.create`. -/
def createEvent (event : TaskEvent) : Handler Unit := do
  let stored : Bool ← issueTask (.createEvent event)
  if stored then return () else .fail .integrityError

abbrev schedule (server : ServerId) (registry : Registry) (key : Nat) (delay : Time) :
    Handler Unit :=
  Prog.issue (L := Statements) (.timer (.schedule server registry key delay))

abbrev cancelTimer (server : ServerId) (registry : Registry) (key : Nat) : Handler Unit :=
  Prog.issue (L := Statements) (.timer (.cancel server registry key))

abbrev send (connection : ConnectionId) (m : ToAgentMessage) : Handler Unit :=
  Prog.issue (L := Statements) (.deliver (.send connection m))

/-- The row, or `DoesNotExist`. -/
def orDoesNotExist {α : Type} (model : String) : Option α → Handler α
  | some a => .ret a
  | none => .fail (.doesNotExist model)

/-- `AgentConsumer.broadcast`: the queue of a websocket agent, a POST to a webhook agent that
has a URL. -/
def broadcast (agentId : AgentId) (m : ToAgentMessage) : Handler Unit := do
  let agent ← orDoesNotExist "Agent" (← getAgent agentId)
  match agent.kind with
  | .websocket => Prog.issue (L := Statements) (.deliver (.push agentId m))
  | .webhook =>
    if agent.hookUrl.any (· != "") then
      Prog.issue (L := Statements) (.deliver (.post agentId m))
    else return ()

end Rekuest
