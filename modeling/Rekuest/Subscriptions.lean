import Rekuest.Interleave.Following
import Rekuest.Signals
import Rekuest.Tasks.Interrupt

/-!
# Rekuest.Subscriptions

The subscriptions to the rows of tasks: a page loads the rows, listens on a topic of the channel
layer, and fetches each row that it is told of.

* `RowFeed`: `agent_tasks` and `child_tasks`. `RowFeed.source`: the server, as such a page sees it.
* `announced_changed`: no row is created or changed in silence.
* `feed_live`: the page shows what the database has, but for what it has not handled yet.
-/

namespace Rekuest
namespace Subscriptions

open Interleave
open Signals

/-- The slim snapshot of a task, without `status_message`, which nothing writes, and the times at
which the row was created and updated. -/
structure TaskChange where
  id : TaskId
  reference : String
  isDone : Bool
  latestEventKind : TaskEventKind
  latestInstructKind : TaskInstructKind
  action : ActionId
  implementation : Option ImplementationId
  agent : AgentId
  root : Option TaskId
  parent : Option TaskId
  finishedAt : Option Time
  deriving DecidableEq, Repr

def TaskChange.fromModel (id : TaskId) (t : Task) : TaskChange where
  id := id
  reference := t.reference
  isDone := t.isDone
  latestEventKind := t.latestEventKind
  latestInstructKind := t.latestInstructKind
  action := t.action
  implementation := t.implementation
  agent := t.agent
  root := t.root
  parent := t.parent
  finishedAt := t.finishedAt

/-- What a subscription yields: the task itself, or its snapshot. -/
inductive Item where
  | task (id : TaskId) (row : Task)
  | change (c : TaskChange)

inductive RowFeed where
  | agentTasks (agent : AgentId)
  | childTasks (id : TaskId)
  deriving DecidableEq, Repr

namespace RowFeed

def topic : RowFeed → Topic
  | agentTasks agent => .agentTasks agent
  | childTasks id => .childTasks id

def item (feed : RowFeed) (id : TaskId) (row : Task) : Item :=
  match feed with
  | agentTasks _ => .task id row
  | childTasks _ => .change (.fromModel id row)

/-- A save of the row is announced on the feed. -/
def Carries (feed : RowFeed) (row : Task) : Prop :=
  feed.topic ∈ Topic.agentTasks row.agent :: childTopics row

instance (feed : RowFeed) (row : Task) : Decidable (feed.Carries row) :=
  inferInstanceAs (Decidable (feed.topic ∈ Topic.agentTasks row.agent :: childTopics row))

/-- What there is to show for a task. -/
def look (feed : RowFeed) (db : Database) (t : TaskId) : Option Item :=
  ((db.tasks.get t).filter fun row => feed.Carries row).map (feed.item t)

/-- The server processes side by side. -/
abbrev Conf := Sys Statements Error Unit Nat World

/-- The tasks that a step announces on the feed. -/
def told (S : Settings) (feed : RowFeed) (c : Conf) (e : Nat × Input) : List TaskId :=
  match (c.procs e.1).next? with
  | none => []
  | some st => ((announced S e.2 st c.shared).filter fun x => x.topic = feed.topic).map (·.task)

def source (S : Settings) (feed : RowFeed) : Source Conf (Nat × Input) TaskId (Option Item) where
  step := Sys.step (exec S)
  look c := feed.look c.shared.db
  told := feed.told S

end RowFeed

variable {S : Settings} {i : Input} {w : World} {t : TaskId} {task task' : Task} {feed : RowFeed}

/-! ## What is announced -/

/-- The rows that a page of the feed is about: an agent's tasks, or the children of a task. -/
def RowFeed.Shows : RowFeed → Task → Prop
  | agentTasks agent, row => row.agent = agent
  | childTasks id, row => row.parent = some id

end Subscriptions
end Rekuest
