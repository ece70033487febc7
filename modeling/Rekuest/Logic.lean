import Rekuest.Replay.Log
import Rekuest.Store

/-!
# Rekuest.Logic

The state of an agent as its log has it: the value of a state at a revision is a snapshot with
the patches after it.

* `PatchDoc`: a patch as `jsonpatch` takes it. What `jsonpatch` does with it is a parameter.
* `Reading`: what one pass of the loop over the states has read so far.
* `getLatestState`: the values of an agent's states.
-/

namespace Rekuest

open Replay

/-- `patch_doc`: one operation, as `jsonpatch` takes it. -/
structure PatchDoc where
  op : String
  path : String
  value : Option Json

/-- A removal goes without a value. -/
def Patch.doc (patch : Patch) : PatchDoc where
  op := patch.op
  path := patch.path
  value := if patch.op = "remove" then none else some patch.value

/-- What is known of a state while its patches are applied. -/
structure Reading where
  value : Json
  globalRevision : Int
  latestTimestamp : Time

/-- One patch: where `jsonpatch` raises, the patch is passed over. -/
def Reading.apply (jsonpatch : Json → PatchDoc → Option Json) (reading : Reading)
    (patch : Patch) : Reading :=
  match jsonpatch reading.value patch.doc with
  | some value => ⟨value, patch.globalRev, patch.timestamp⟩
  | none => reading

/-- What `get_latest_state` answers. -/
structure LatestState where
  states : Dict Json := []
  globalRevision : Int := 0
  forwardPatches : List Patch := []
  backwardPatches : List Patch := []
  sessionId : String
  timestamp : Time

namespace Logic

variable (db : Database) (agent : AgentId)

/-- The session asked for, or without one the youngest session of the agent. -/
def findSession (sessionId : Option String) : Except Error (SessionKey × Session) :=
  if sessionId.getD "" = "" then
    match (orderByDesc (fun t => t.2.createdAt)
        (db.sessions.select fun _ t => t.agent = agent)).head? with
    | none => .error .attributeError
    | some t => .ok t
  else
    match db.sessions.select fun _ t => t.agent = agent && t.sessionId = sessionId.getD "" with
    | [] => .error (.doesNotExist "Session")
    | [t] => .ok t
    | _ => .error (.multipleObjectsReturned "Session")

/-- The snapshot a state is read from: of the revisions that are not too high the highest, or
without a bound the youngest snapshot. -/
def snapshotOf (session : SessionKey) (globalRevision : Option Int) (state : StateId) :
    Option Snapshot :=
  let snapshotQs := db.snapshots.filter fun s =>
    s.state = state && s.agent = some agent && s.session = some session
  match globalRevision with
  | some revision =>
    (orderByDesc Snapshot.globalRev (snapshotQs.filter fun s => s.globalRev ≤ revision)).head?
  | none => (orderByDesc Snapshot.timestamp snapshotQs).head?

/-- The patches that are applied to a snapshot. -/
def patchesAfter (globalRevision : Option Int) (state : StateId) (snapshot : Snapshot) :
    List Patch :=
  orderBy Patch.timestamp (db.patches.filter fun p =>
    p.state = state && p.agent = some agent && snapshot.timestamp < p.timestamp &&
      globalRevision.all fun revision => p.globalRev ≤ revision)

variable (jsonpatch : Json → PatchDoc → Option Json)

/-- One state of the loop. `latestTimestamp` is the one that the states before left. -/
def readState (session : SessionKey) (globalRevision : Option Int) (latestTimestamp : Time)
    (state : StateId) : Except Error Reading :=
  match snapshotOf db agent session globalRevision state with
  | none => .error (.valueError s!"No snapshot found for state {state}")
  | some snapshot =>
    .ok ((patchesAfter db agent globalRevision state snapshot).foldl (Reading.apply jsonpatch)
      ⟨snapshot.value, snapshot.globalRev, latestTimestamp⟩)

/-- The body of the loop over the states. -/
def readInto (session : SessionKey) (globalRevision : Option Int) (latest : LatestState)
    (state : StateId × State) : Except Error LatestState := do
  let reading ← readState db agent jsonpatch session globalRevision latest.timestamp state.1
  return { latest with
    states := latest.states.set state.2.interface reading.value
    globalRevision := max latest.globalRevision reading.globalRevision
    timestamp := reading.latestTimestamp }

/-- The states that are read: all of the agent's, or the one asked for. -/
def statesOf (stateId : Option StateId) : List (StateId × State) :=
  db.states.select fun k s => s.agent = agent && stateId.all fun id => k = id

def forwardPatches (reference : Int) (count : Int) : List Patch :=
  (orderBy Patch.globalRev (db.patches.filter fun p =>
    p.agent = some agent && reference < p.globalRev)).take count.toNat

def backwardPatches (reference : Int) (count : Int) : List Patch :=
  ((orderByDesc Patch.globalRev (db.patches.filter fun p =>
    p.agent = some agent && p.globalRev ≤ reference)).take count.toNat).reverse

def getLatestState (stateId : Option StateId) (sessionId : Option String)
    (globalRevision : Option Int) (forwardPatchCount : Int) (backwardPatchCount : Int) :
    Except Error LatestState := do
  let t ← findSession db agent sessionId
  let latest ← (statesOf db agent stateId).foldlM
    (readInto db agent jsonpatch t.1 globalRevision)
    { sessionId := t.2.sessionId, timestamp := t.2.createdAt }
  let reference := globalRevision.getD latest.globalRevision
  return { latest with
    forwardPatches := forwardPatches db agent reference forwardPatchCount
    backwardPatches := backwardPatches db agent reference backwardPatchCount }

end Logic
end Rekuest
