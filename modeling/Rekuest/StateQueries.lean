import Rekuest.Fallible.Fold
import Rekuest.Logic

/-!
# Rekuest.StateQueries

The two ways to check out the past of an agent: one state, and all of its states at once.

* `Target`: what a checkout is asked for.
* `checkout`, `checkoutAgent`: the two resolvers, each with its own reading of the target.
-/

namespace Rekuest

open Fallible Replay

/-- The point of the log that is asked for. A timestamp goes before the other two. -/
structure Target where
  sessionId : Option String := none
  globalRevision : Option Int := none
  timestamp : Option Time := none

/-- What the resolvers hand to `get_latest_state` for a target. -/
structure Address where
  sessionId : Option String
  globalRevision : Option Int

structure StateValue where
  stateId : StateId
  value : Json
  globalRevision : Option Json
  forwardPatches : List Patch
  backwardPatches : List Patch

structure AgentWithValues where
  agentId : AgentId
  values : Dict Json
  globalRevision : Int
  forwardPatches : List Patch
  backwardPatches : List Patch

namespace StateQueries

variable (db : Database)

/-- The youngest patch, at a time or before, of those that meet a condition. -/
def latestPatch (timestamp : Time) (among : Patch → Bool) : Option Patch :=
  (orderByDesc Patch.timestamp (db.patches.filter fun p =>
    among p && p.timestamp ≤ timestamp)).head?

/-- How `checkout` reads a target: the session of a patch by its primary key. -/
def checkoutAddress (state : StateId) (agent : AgentId) (target : Target) :
    Except Error Address :=
  match target.timestamp with
  | none => .ok ⟨target.sessionId, target.globalRevision⟩
  | some timestamp =>
    match latestPatch db timestamp fun p => p.state = state && p.agent = some agent with
    | none => .error (.doesNotExist
        s!"No patches found for state {state} before timestamp {timestamp}")
    | some patch => match patch.session with
      | none => .error .attributeError
      | some session => .ok ⟨some (toString session), some patch.globalRev⟩

/-- How `checkout_agent` reads a target: the session of a patch by the name its agent gave it. -/
def checkoutAgentAddress (agent : AgentId) (target : Target) : Except Error Address :=
  match target.timestamp with
  | none => .ok ⟨target.sessionId, target.globalRevision⟩
  | some timestamp =>
    match latestPatch db timestamp fun p => p.agent = some agent with
    | none => .error (.doesNotExist
        s!"No patches found for state {agent} before timestamp {timestamp}")
    | some patch => match patch.session.bind db.sessions.get with
      | none => .error .attributeError
      | some session => .ok ⟨some session.sessionId, some patch.globalRev⟩

variable (jsonpatch : Json → PatchDoc → Option Json)

/-- `.get(...)` of a `dict`; another document has no such method. -/
def getMember (key : String) : Json → Except Error (Option Json)
  | .obj members => .ok (Dict.get? members key)
  | _ => .error .attributeError

def checkout (state : StateId) (target : Target) (forwardPatchCount : Int)
    (backwardPatchCount : Int) : Except Error StateValue := do
  let stateInst ← orRaise (.doesNotExist "State") (db.states.get state)
  let address ← checkoutAddress db state stateInst.agent target
  let payload ← Logic.getLatestState db stateInst.agent jsonpatch (some state)
    address.sessionId address.globalRevision forwardPatchCount backwardPatchCount
  let stateData ← orRaise (.doesNotExist s!"No state found for {state}")
    (payload.states.get? stateInst.interface)
  let currentGlobalRev ← getMember "global_revision" stateData
  return {
    stateId := state
    value := stateData
    globalRevision := currentGlobalRev
    forwardPatches := payload.forwardPatches
    backwardPatches := payload.backwardPatches }

def checkoutAgent (agent : AgentId) (target : Target) (forwardPatchCount : Int)
    (backwardPatchCount : Int) : Except Error AgentWithValues := do
  let _ ← orRaise (.doesNotExist "Agent") (db.agents.get agent)
  let address ← checkoutAgentAddress db agent target
  let payload ← Logic.getLatestState db agent jsonpatch none
    address.sessionId address.globalRevision forwardPatchCount backwardPatchCount
  return {
    agentId := agent
    values := payload.states
    globalRevision := payload.globalRevision
    forwardPatches := payload.forwardPatches
    backwardPatches := payload.backwardPatches }

end StateQueries
end Rekuest
