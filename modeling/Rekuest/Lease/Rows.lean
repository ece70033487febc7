import Rekuest.Store

/-!
# Rekuest.Lease.Rows

What each lease statement makes of the lease columns of a row, and of the agents' rows in the
world.
-/

namespace Rekuest
namespace Lease

open Interleave

variable {S : Settings}

/-! ## What a call does to a row -/

theorem claim_refused {i : Input} {row : LeaseColumns} {connection : Option ConnectionId}
    {session : Option SessionId} {force : Bool}
    (h : (row.claim S i connection session force).1.claimed = false) :
    (row.claim S i connection session force).2 = row := by
  unfold LeaseColumns.claim at h ⊢
  split at h
  · rename_i hc; rw [if_pos hc]
  · cases h

theorem claim_claimed {i : Input} {row : LeaseColumns} {connection : Option ConnectionId}
    {session : Option SessionId} {force : Bool}
    (h : (row.claim S i connection session force).1.claimed = true) :
    (row.claim S i connection session force).1.epoch = some (row.leaseEpoch + 1) ∧
      (row.claim S i connection session force).2 =
        { leaseEpoch := row.leaseEpoch + 1
          connected := true
          lastSeen := some i.stamp
          activeConnectionId := connection
          activeSessionId := session } := by
  unfold LeaseColumns.claim at h ⊢
  split at h
  · cases h
  · rename_i hc; rw [if_neg hc]; exact ⟨rfl, rfl⟩

theorem revoke_refused {i : Input} {row : LeaseColumns} (h : (row.revoke S i).1 = false) :
    (row.revoke S i).2 = row := by
  unfold LeaseColumns.revoke at h ⊢
  split at h
  · cases h
  · rename_i hc; rw [if_neg hc]

theorem revoke_won {i : Input} {row : LeaseColumns} (h : (row.revoke S i).1 = true) :
    (row.revoke S i).2 = { row with connected := false, leaseEpoch := row.leaseEpoch + 1 } := by
  unfold LeaseColumns.revoke at h ⊢
  split at h
  · rename_i hc; rw [if_pos hc]
  · cases h

theorem renew_failed {i : Input} {row : LeaseColumns} {e : Int} (h : (row.renew i e).1 = false) :
    (row.renew i e).2 = row ∧ row.leaseEpoch ≠ e := by
  unfold LeaseColumns.renew at h ⊢
  split at h
  · cases h
  · rename_i hc; rw [if_neg hc]; exact ⟨rfl, hc⟩

theorem renew_renewed {i : Input} {row : LeaseColumns} {e : Int} (h : (row.renew i e).1 = true) :
    (row.renew i e).2 = { row with lastSeen := some i.now } ∧ row.leaseEpoch = e := by
  unfold LeaseColumns.renew at h ⊢
  split at h
  · rename_i hc; rw [if_pos hc]; exact ⟨rfl, hc⟩
  · cases h

/-! ## The lease columns of an agent -/

def leaseOf (a : AgentId) (w : World) : Option LeaseColumns :=
  (w.db.agents.get a).map (·.toLeaseColumns)

variable {i : Input} {w : World} {a : AgentId}

theorem leaseOf_lease {c : LeaseStmt} :
    leaseOf a (exec S i (.lease c) w).2 =
      if a = c.target then (leaseOf a w).map fun row => (c.onRow S i row).2 else leaseOf a w := by
  show ((c.exec S i w.db).2.agents.get a).map (·.toLeaseColumns) = _
  rw [LeaseStmt.get_exec]
  unfold leaseOf
  split
  · cases w.db.agents.get a <;> rfl
  · rfl

/-- Only lease statements and writes to agent rows touch the lease columns. -/
theorem leaseOf_exec {c : Stmt} (hl : ∀ l, c ≠ .lease l) (ha : ∀ s, c ≠ .agent s) :
    leaseOf a (exec S i c w).2 = leaseOf a w := by
  have hagents : (exec S i c w).2.db.agents = w.db.agents := by
    cases c with
    | read q => rfl
    | lease l => exact absurd rfl (hl l)
    | agent s => exact absurd rfl (ha s)
    | getOrCreateCaller identity => exact exec_getOrCreateCaller_agents
    | task c => exact exec_task_agents
    | state c => exact exec_state_agents
    | deliver c => rw [exec_deliver_db]
    | timer c => rw [exec_timer_db]
  unfold leaseOf
  rw [hagents]

/-- Agent 1, never connected. -/
def idleWorld : World :=
  let user : User := ⟨1, "user"⟩
  let client : Client := ⟨1, "client"⟩
  let organization : Organization := ⟨1, "org"⟩
  { db := { agents := Table.empty.insert {
      name := "agent", app := "app", release := "1", hash := "hash"
      user := user, client := client, organization := organization } } }

end Lease
end Rekuest
