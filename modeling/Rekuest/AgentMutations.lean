import Rekuest.Transport

/-!
# Rekuest.AgentMutations

The mutations that write an agent row: its name, its pins, its transport and its registration.
-/

namespace Rekuest
namespace AgentMutations

open Interleave

def agentStmt (c : AgentStmt) : Handler c.Ans := Prog.issue (L := Statements) (.agent c)

def updateAgent (id : AgentId) (name : Option String) : Handler Unit := do
  let agent ← orDoesNotExist "Agent" (← getAgent id)
  agentStmt (.save id { agent with name := name.getD agent.name })

def pinAgent (id : AgentId) (user : User) (pin : Bool) : Handler Unit := do
  let agent ← orDoesNotExist "Agent" (← getAgent id)
  let _ : Unit ← agentStmt (.pin id user pin)
  agentStmt (.save id agent)

/-- `ensure_agent`: the row, and the transport columns the input names. -/
def ensureAgent (identity : AgentIdentity) (defaults : AgentDefaults) (kind : Option AgentKind)
    (hookUrl hookUrlSecret : Option String) : Handler AgentId := do
  let id : AgentId ← agentStmt (.getOrCreate identity defaults)
  if kind.isSome || hookUrl.isSome || hookUrlSecret.isSome then
    let _ : Unit ← agentStmt (.saveTransport id kind hookUrl hookUrlSecret)
    return id
  else return id

/-- The upsert of `implement_agent`. -/
def implementAgent (identity : AgentIdentity) (defaults : AgentDefaults) (hash : Option String) :
    Handler AgentId := do
  let fresh : String ← ask .uuid
  agentStmt (.updateOrCreate identity defaults (if hash.any (· != "") then hash.getD "" else fresh))

end AgentMutations
end Rekuest
