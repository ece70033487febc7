import Rekuest.Models.Rows

/-!
# Rekuest.Settings

What the deployment configures, and the functions of the source that resolve it.
-/

namespace Rekuest

structure ProvenanceSettings where
  issuer : String := "rekuest"
  tokenTtlSeconds : Time := 3600
  humanRoles : List String := []
  strict : Bool := false

structure Settings where
  agentHeartbeatInterval : Time := 10
  agentStaleAfter : Option Time := none
  /-- `REKUEST_GRACE`: `DEFAULT` and `PROGRESS_LEASE`, absent where not set. -/
  graceDefault : Option Time := none
  progressLease : Option Time := none
  provenance : ProvenanceSettings := {}
  /-- The hash of canonical arguments: it only ever meets itself. -/
  argsHash : Dict Json → String := fun _ => ""

namespace Settings

variable (S : Settings)

def staleAfterSeconds : Time := S.agentStaleAfter.getD (3 * S.agentHeartbeatInterval)

/-- `grace_seconds()`, which no caller asks for a physical window. -/
def graceSeconds : Time := S.graceDefault.getD 0

def progressLeaseSeconds : Time := S.progressLease.getD 0

end Settings
end Rekuest
