import Rekuest.Transport

/-!
# Rekuest.Queries

The queries over tasks.
-/

namespace Rekuest
namespace Queries

open Interleave

/-- The open root tasks of whoever asks. -/
def myTasks (identity : AgentIdentity) : Handler (List (TaskId × Task)) := do
  let caller : CallerId ← Prog.issue (L := Statements) (.getOrCreateCaller identity)
  ask (.openRootTasks caller)

end Queries
end Rekuest
