import Rekuest.Store

/-!
# Rekuest.Signals

What the save of a task and of an event announces on the channel layer, and on which topics.

* `taskPostSave`: the receiver of a saved task. `publishTaskEvent`: the publisher of a stored event.
* `announced`: what one statement announces, once it is done.
-/

namespace Rekuest
namespace Signals

inductive Topic where
  | rootTasksCaller (caller : CallerId)
  | rootTasksOrg (organization : Nat)
  | taskCaller (caller : CallerId)
  | agentTasks (agent : AgentId)
  | childTasks (task : TaskId)
  deriving DecidableEq, Repr

/-- The feeds of root tasks: of one caller, and of an organization. -/
def Topic.isRootFeed : Topic → Bool
  | rootTasksCaller _ => true
  | rootTasksOrg _ => true
  | _ => false

/-- What a subscriber is told of a task: it was created, it was updated, or it has an event. -/
inductive Change where
  | create
  | update
  | event (id : Nat)
  deriving DecidableEq, Repr

structure Announcement where
  topic : Topic
  task : TaskId
  change : Change
  deriving DecidableEq, Repr

/-- The two root feeds of a caller. -/
def rootTopics (db : Database) (caller : CallerId) : List Topic :=
  .rootTasksCaller caller ::
    ((db.callers.get caller).map fun row => .rootTasksOrg row.organization.pk).toList

/-- The feeds of a task's parent and of its root: a set of topics. -/
def childTopics (task : Task) : List Topic :=
  match task.parent, task.root with
  | none, _ => []
  | some parent, none => [.childTasks parent]
  | some parent, some root =>
    if root = parent then [.childTasks parent] else [.childTasks parent, .childTasks root]

def taskPostSave (db : Database) (id : TaskId) (task : Task) (created : Bool) :
    List Announcement :=
  let change : Change := if created then .create else .update
  let roots := match task.caller with
    | some caller => if created && task.root.isNone then rootTopics db caller else []
    | none => []
  (roots ++ .agentTasks task.agent :: childTopics task).map fun topic => ⟨topic, id, change⟩

def publishTaskEvent (db : Database) (id : Nat) (event : TaskEvent) : List Announcement :=
  match db.tasks.get event.task with
  | none => []
  | some task => match task.caller with
    | none => []
    | some caller =>
      (.taskCaller caller :: if task.root.isNone then rootTopics db caller else []).map fun topic =>
        ⟨topic, event.task, .event id⟩

/-- What a statement announces. -/
def announced (S : Settings) (i : Input) (c : Stmt) (w : World) : List Announcement :=
  let db := (exec S i c w).2.db
  match c with
  | .task (.create row) =>
    if w.db.admits row then taskPostSave db w.db.tasks.next row true else []
  | .task (.createEvent event) =>
    if w.db.hasTask (some event.task) then publishTaskEvent db w.db.events.length event else []
  | .task (.save id _) =>
    ((db.tasks.get id).map fun task => taskPostSave db id task false).getD []
  | .task (.claimTransition id toKind markDone skip) =>
    if (w.db.tasks.get id).any fun task => (task.claimTransition i.now toKind markDone skip).1 then
      ((db.tasks.get id).map fun task => taskPostSave db id task false).getD []
    else []
  | _ => []

end Signals
end Rekuest
