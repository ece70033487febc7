import Rekuest.Models.Rows

/-!
# Rekuest.Messages

The messages between the backend and the agents, without the envelope's random id where
nothing answers to it.

* `ToAgentMessage`: backend to agent.
* `Report`: an agent's report about a task it executes. A report keeps its id: the ack names it.
-/

namespace Rekuest

/-- The signed provenance token: the claims, as the signature is a function of them. -/
structure Token where
  iss : String
  aud : List String
  sub : String
  actSub : String
  actCid : String
  iat : Time
  exp : Time
  jti : String
  tsk : TaskId
  ptk : Option TaskId
  rtk : TaskId
  rcb : Option String
  ahs : String
  deriving DecidableEq, Repr

structure Assign where
  task : TaskId
  args : Dict Json
  user : String
  org : String
  reference : Option String
  capture : Bool
  resolution : Option Nat
  interface : String
  action : String
  implementation : ImplementationId
  parent : Option TaskId := none
  root : Option TaskId := none
  token : Option Token

inductive ToAgentMessage where
  | assign (m : Assign)
  | cancel (task : TaskId)
  | interrupt (task : TaskId)
  | pause (task : TaskId)
  | resume (task : TaskId) (step : Bool)
  | kick (reason : Option String)
  | init (agent : AgentId) (inquiries : List TaskId)
  | protocolError (error : String)
  | eventAck (event : Nat) (task : Option TaskId) (seq : Option Nat)

namespace ToAgentMessage

/-- The task that a message hands out. -/
def assigned? : ToAgentMessage → Option TaskId
  | assign m => some m.task
  | _ => none

/-- The task that a control message is for. -/
def controlled? : ToAgentMessage → Option TaskId
  | cancel task => some task
  | interrupt task => some task
  | pause task => some task
  | resume task _ => some task
  | _ => none

/-- The task that an instruction is about. -/
def about? (m : ToAgentMessage) : Option TaskId := m.assigned?.or m.controlled?

end ToAgentMessage

/-- What is reported. On the wire the texts are any, in the handlers those that an event can store. -/
inductive ReportKind (Text : Type := EventText) where
  | started
  | paused
  | resumed
  | log (message : Text)
  | progress (progress : Option Int) (message : Option Text)
  | yield (returns : Option (Dict Json))
  | completed
  | cancelled
  | interrupted
  | failed (error : Text)
  | critical (error : Text)

structure Report where
  id : Nat
  seq : Option Nat := none
  task : TaskId
  kind : ReportKind

end Rekuest
