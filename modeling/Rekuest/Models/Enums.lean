/-!
# Rekuest.Models.Enums

The enumerations the task and agent rows are made of.
-/

namespace Rekuest

inductive TaskEventKind where
  | bound | queued | started | progress | delegate
  | disconnected
  | yield | completed
  | log
  | cancelling | cancelled
  | interrupting | interrupted
  | pausing | paused
  | resuming | resumed
  | failed | critical
  deriving DecidableEq, Repr

namespace TaskEventKind

/-- `_TERMINAL_KINDS`. -/
def terminalKinds : List TaskEventKind := [completed, cancelled, interrupted, failed, critical]

def isTerminal (kind : TaskEventKind) : Bool := terminalKinds.contains kind

end TaskEventKind

inductive TaskInstructKind where
  | assign | cancel | resume | pause | interrupt | collect
  deriving DecidableEq, Repr

inductive AgentKind where
  | websocket | webhook
  deriving DecidableEq, Repr

inductive EffectClass where
  | none | physical
  deriving DecidableEq, Repr

inductive HookKind where
  | cleanup | init
  deriving DecidableEq, Repr

end Rekuest
