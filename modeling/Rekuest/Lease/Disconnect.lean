import Rekuest.Footprint
import Rekuest.Lease.Rows

/-!
# Rekuest.Lease.Disconnect

A closing connection and its successor, statement by statement. The disconnect reads the agent
row, checks that its connection is still the active one, and saves `connected`; any number of
claims, renewals and revocations may land in between.

* `history`: what the statements of a run did to the agent's lease, newest first.
* `Holds`: a connection made the latest claim, and was neither revoked nor has disconnected.
* `SparesSuccessor`: the holder stays connected, and a displaced disconnect neither clears
  `connected` nor goes on to a reconcile.
* `Unraced`: no claim has landed between the disconnect's check and the step it is about to take.
* `disconnect_spares_successor`: every run of unraced steps spares the successor.
  `disconnect_knocks_out_successor`: a raced one does not.
-/

namespace Rekuest
namespace Lease

open Interleave Interleave.Prog

/-- The processes: the runs of the connection calls. -/
abbrev Proc := ConnectionCall × Nat

abbrev Conf := Sys Statements Error Unit Proc World

variable {S : Settings} {a : AgentId}

/-! ## History -/

inductive Event where
  | claimed (connection : Option ConnectionId)
  | revoked
  /-- The connection's own disconnect saved `connected`. -/
  | released (connection : ConnectionId)
  | other

/-- What statement `st` of call `call` does to the agent's lease, on the row it finds. -/
def stmtEvent (S : Settings) (a : AgentId) (call : ConnectionCall) (i : Input)
    (row : LeaseColumns) : Stmt → Event
  | .lease (.claim b connection session force) =>
    if b = a ∧ (row.claim S i connection session force).1.claimed = true then .claimed connection
    else .other
  | .lease (.revoke b) => if b = a ∧ (row.revoke S i).1 = true then .revoked else .other
  | .lease (.release b) =>
    match call with
    | .disconnect _ _ connection => if b = a then .released connection else .other
    | _ => .other
  | _ => .other

/-- What the next statement of a process does to the agent's lease. -/
def event (S : Settings) (a : AgentId) (c : Conf) (e : Proc × Input) : Event :=
  match leaseOf a c.shared, (c.procs e.1).next? with
  | some row, some st => stmtEvent S a e.1.1 e.2 row st
  | _, _ => .other

/-- The events of a run, newest first, on top of those before it. -/
def history (S : Settings) (a : AgentId) (c : Conf) (past : List Event) :
    List (Proc × Input) → List Event
  | [] => past
  | e :: sched => history S a (c.step (exec S) e) (event S a c e :: past) sched

/-- The connection made the latest successful claim, and was since neither revoked nor has it
run its own disconnect. -/
def Holds (connection : ConnectionId) : List Event → Prop
  | [] => False
  | .claimed d :: _ => d = some connection
  | .revoked :: _ => False
  | .released d :: past => d ≠ connection ∧ Holds connection past
  | .other :: past => Holds connection past

/-- Another connection than `connection` is the active one, and connected. -/
def Displaced (w : World) (a : AgentId) (connection : ConnectionId) : Prop :=
  ∃ row, leaseOf a w = some row ∧ row.connected = true ∧
    row.activeConnectionId ≠ some connection

def Connected (w : World) (a : AgentId) : Prop :=
  ∃ row, leaseOf a w = some row ∧ row.connected = true

/-- The claim on a run: whoever holds the lease is connected; and no step of a displaced
connection's disconnect clears `connected` or brings it to the in-flight query. -/
def SparesSuccessor (S : Settings) (a : AgentId) (c : Conf) (sched : List (Proc × Input)) : Prop :=
  (∀ connection, Holds connection (history S a c [] sched) →
    Connected (c.run (exec S) sched).shared a) ∧
  ∀ pre e post, sched = pre ++ e :: post → ∀ server connection,
    e.1.1 = .disconnect server a connection →
    Displaced (c.run (exec S) pre).shared a connection →
    Connected (c.run (exec S) (pre ++ [e])).shared a ∧
      ((c.run (exec S) (pre ++ [e])).procs e.1).next? ≠ some (.read (.inFlight a))

/-- The connection whose disconnect the call is. -/
def disconnecting : ConnectionCall → Option ConnectionId
  | .disconnect _ _ connection => some connection
  | _ => none

/-- Statement `st` of the disconnect of `connection` does no harm to a newer connection: it is not
the save or the liveness check, or the row names no newer connection, or one that is not connected
any more, or, for the check, one that is live. -/
def harmless (S : Settings) (a : AgentId) (i : Input) (row : LeaseColumns)
    (connection : ConnectionId) : Stmt → Bool
  | .lease (.release b) =>
    b != a || row.activeConnectionId == some connection || !row.connected
  | .read (.agentIsLive b) =>
    b != a || row.activeConnectionId == some connection || !row.connected
      || Liveness.agentIsLive S i.now row.connected row.lastSeen
  | _ => true

/-- The step does not race with a claim: a disconnect takes it on a row that it does no harm to. -/
def Unraced (S : Settings) (a : AgentId) (c : Conf) (e : Proc × Input) : Prop :=
  ∀ row ∈ leaseOf a c.shared, ∀ st ∈ (c.procs e.1).next?, ∀ connection ∈ disconnecting e.1.1,
    harmless S a e.2 row connection st = true

instance (c : Conf) (e : Proc × Input) : Decidable (Unraced S a c e) :=
  inferInstanceAs (Decidable (∀ row ∈ leaseOf a c.shared, ∀ st ∈ (c.procs e.1).next?,
    ∀ connection ∈ disconnecting e.1.1, harmless S a e.2 row connection st = true))

instance decidableHolds (connection : ConnectionId) :
    (past : List Event) → Decidable (Holds connection past)
  | [] => inferInstanceAs (Decidable False)
  | .claimed d :: _ => inferInstanceAs (Decidable (d = some connection))
  | .revoked :: _ => inferInstanceAs (Decidable False)
  | .released d :: past =>
    have := decidableHolds connection past
    inferInstanceAs (Decidable (d ≠ connection ∧ Holds connection past))
  | .other :: past => decidableHolds connection past

/-! ## The shape of a disconnect -/

/-- What is left of a disconnect after its save. -/
def afterRelease (S : Settings) (server : ServerId) (b : AgentId) : Handler Unit :=
  if S.graceSeconds ≤ 0 then PersistBackend.reconcileOrphanedExecutorWork server b
  else schedule server .executorGrace b S.graceSeconds

theorem onAgentDisconnected_eq {server : ServerId} {b : AgentId} {connection : ConnectionId} :
    PersistBackend.onAgentDisconnected S server b (some connection) =
      .stmt (.read (.lease b)) fun row => match row with
        | none => .fail (.doesNotExist "Agent")
        | some row =>
          if row.activeConnectionId = some connection then
            .stmt (.lease (.release b)) fun _ => afterRelease S server b
          else .ret () := by
  simp only [PersistBackend.onAgentDisconnected, PersistBackend.releaseLease, getLease, ask,
    bind_eq, bind_assoc, issue, stmt_bind, ret_bind]
  congr 1
  funext row
  cases row with
  | none => rfl
  | some row =>
    simp only [orDoesNotExist, ret_bind]
    by_cases h : row.activeConnectionId = some connection
    · simp [h, afterRelease, schedule, issue]
    · simp [h]

/-- What a disconnect can have left to run. -/
inductive Stage (S : Settings) (server : ServerId) (b : AgentId) (connection : ConnectionId) :
    Handler Unit → Prop where
  | start : Stage S server b connection
      (PersistBackend.onAgentDisconnected S server b (some connection))
  | checked : Stage S server b connection
      (.stmt (.lease (.release b)) fun _ => afterRelease S server b)
  | released : Stage S server b connection
      (PersistBackend.reconcileOrphanedExecutorWork server b)
  | judged : Stage S server b connection (PersistBackend.orphanCascade server b)
  | rest {p : Handler Unit} (h : p.Issues Stmt.InCascade) : Stage S server b connection p

theorem Stage.of_afterRelease {server : ServerId} {b : AgentId} {connection : ConnectionId} :
    Stage S server b connection (afterRelease S server b) := by
  unfold afterRelease
  split
  · exact .released
  · exact .rest (Issues.issue trivial)

/-- A statement of a disconnect, and what it leaves to run. -/
theorem Stage.step {server : ServerId} {b : AgentId} {connection : ConnectionId} {st : Stmt}
    {k : st.Ans → Handler Unit} (h : Stage S server b connection (.stmt st k)) :
    (∀ ans, Stage S server b connection (k ans)) ∧ (∀ s, st ≠ .agent s) ∧
      (∀ l, st = .lease l → l = .release b) := by
  generalize hp : (Prog.stmt st k : Handler Unit) = p at h
  cases h with
  | start =>
    rw [onAgentDisconnected_eq] at hp
    cases hp
    refine ⟨fun row => ?_, by simp, by simp⟩
    cases row with
    | none => exact .rest trivial
    | some row =>
      dsimp only
      split
      · exact .checked
      · exact .rest trivial
  | checked =>
    cases hp
    exact ⟨fun _ => .of_afterRelease, by simp, by simp⟩
  | released =>
    rw [PersistBackend.reconcileOrphanedExecutorWork_eq] at hp
    cases hp
    refine ⟨fun live => ?_, by simp, by simp⟩
    match live with
    | none => exact .rest trivial
    | some true => exact .rest trivial
    | some false => exact .judged
  | judged =>
    cases hp
    exact ⟨fun _ => .rest PersistBackend.failAndCascadeInflight_issues, by simp, by simp⟩
  | rest h =>
    subst hp
    refine ⟨fun ans => .rest (h.2 ans), ?_, ?_⟩
    · rintro s rfl; exact h.1.elim
    · rintro l rfl; exact h.1.elim

/-- What each process can have left to run. -/
def Typed (S : Settings) (p : Proc) (prog : Handler Unit) : Prop :=
  match p.1 with
  | .disconnect server b connection => Stage S server b connection prog
  | _ => prog.Issues Stmt.NoRelease

theorem typed_start (S : Settings) (p : Proc) : Typed S p (p.1.code S) := by
  obtain ⟨call, n⟩ := p
  cases call with
  | disconnect server agent connection => exact .start
  | _ =>
    exact PersistBackend.noRelease_built.connectionCall (fun _ _ _ => Issues.issue trivial) nofun

/-- A typed process issues no write to an agent row, and only a disconnect releases. -/
theorem Typed.step {p : Proc} {st : Stmt} {k : st.Ans → Handler Unit}
    (h : Typed S p (.stmt st k)) :
    (∀ ans, Typed S p (k ans)) ∧ (∀ s, st ≠ .agent s) ∧
      (∀ b, st = .lease (.release b) → ∃ server connection,
        p.1 = .disconnect server b connection) := by
  unfold Typed at h ⊢
  split at h
  · rename_i server b connection hp
    obtain ⟨hk, ha, hl⟩ := Stage.step h
    refine ⟨hk, ha, fun b' hst => ⟨server, connection, ?_⟩⟩
    cases hl _ hst
    exact hp
  · refine ⟨h.2, ?_, ?_⟩
    · rintro s rfl; exact h.1.elim
    · rintro b rfl; exact h.1.elim

/-! ## The invariant -/

structure Inv (S : Settings) (a : AgentId) (c : Conf) (past : List Event) : Prop where
  typed : ∀ p, Typed S p (c.procs p)
  held : ∀ connection, Holds connection past →
    ∃ row, leaseOf a c.shared = some row ∧ row.connected = true ∧
      row.activeConnectionId = some connection

theorem inv_start (S : Settings) (a : AgentId) (w : World) :
    Inv S a (start (ConnectionCall.code S) w) [] :=
  ⟨typed_start S, fun _ h => h.elim⟩

/-- The row after a lease statement still names and connects the holder. -/
theorem held_lease {call : ConnectionCall} {l : LeaseStmt} {i : Input} {row : LeaseColumns}
    {past : List Event} {connection : ConnectionId} (hl : l.target = a)
    (hrelease : l = .release a → ∃ server d, call = .disconnect server a d ∧
      (row.activeConnectionId = some d ∨ row.connected = false))
    (hheld : Holds connection past →
      row.connected = true ∧ row.activeConnectionId = some connection)
    (h : Holds connection (stmtEvent S a call i row (.lease l) :: past)) :
    (l.onRow S i row).2.connected = true ∧
      (l.onRow S i row).2.activeConnectionId = some connection := by
  subst hl
  cases l with
  | claim b d session force =>
    simp only [LeaseStmt.onRow]
    by_cases hc : (row.claim S i d session force).1.claimed = true
    · rw [(claim_claimed hc).2]
      simp only [stmtEvent, LeaseStmt.target, hc, and_self, if_true, Holds] at h
      exact ⟨rfl, h⟩
    · simp only [Bool.not_eq_true] at hc
      rw [claim_refused hc]
      exact hheld (by simpa [stmtEvent, hc, Holds] using h)
  | revoke b =>
    simp only [LeaseStmt.onRow]
    by_cases hc : (row.revoke S i).1 = true
    · simp only [stmtEvent, LeaseStmt.target, hc, and_self, if_true, Holds] at h
    · simp only [Bool.not_eq_true] at hc
      rw [revoke_refused hc]
      exact hheld (by simpa [stmtEvent, hc, Holds] using h)
  | renew b e =>
    have hrow := hheld h
    simp only [LeaseStmt.onRow, LeaseColumns.renew]
    split <;> exact hrow
  | release b =>
    obtain ⟨server, d, rfl, hd⟩ := hrelease rfl
    simp only [stmtEvent, LeaseStmt.target, if_true, Holds] at h
    obtain ⟨hne, hpast⟩ := h
    obtain ⟨hconn, hactive⟩ := hheld hpast
    rcases hd with hd | hd
    · exact (hne (Option.some.inj (hd.symm.trans hactive))).elim
    · rw [hd] at hconn; cases hconn

theorem Inv.step {c : Conf} {past : List Event} {e : Proc × Input} (h : Inv S a c past)
    (hu : Unraced S a c e) : Inv S a (c.step (exec S) e) (event S a c e :: past) := by
  cases hp : c.procs e.1 with
  | ret x => simpa [Sys.step, event, hp, Prog.next?, Holds] using ⟨h.typed, h.held⟩
  | fail x => simpa [Sys.step, event, hp, Prog.next?, Holds] using ⟨h.typed, h.held⟩
  | stmt st k =>
    obtain ⟨hk, hagent, hrel⟩ := Typed.step (hp ▸ h.typed e.1)
    rw [Sys.step_stmt hp]
    refine ⟨fun p => ?_, fun connection hc => ?_⟩
    · by_cases hpe : p = e.1
      · subst hpe; rw [Sys.put_self]; exact hk _
      · rw [Sys.put_other _ hpe]; exact h.typed p
    · rw [Sys.put_shared]
      have hev : event S a c e =
          ((leaseOf a c.shared).map fun row => stmtEvent S a e.1.1 e.2 row st).getD .other := by
        simp only [event, hp, Prog.next?]
        cases leaseOf a c.shared <;> rfl
      rw [hev] at hc
      by_cases hl : ∃ l, st = .lease l ∧ l.target = a
      · obtain ⟨l, rfl, hl⟩ := hl
        rw [leaseOf_lease, if_pos hl.symm]
        cases hrow : leaseOf a c.shared with
        | none =>
          rw [hrow] at hc
          obtain ⟨row, hr, _⟩ := h.held connection hc
          rw [hrow] at hr; cases hr
        | some row =>
          rw [hrow] at hc
          refine ⟨_, rfl, held_lease hl ?_ ?_ hc⟩
          · rintro rfl
            obtain ⟨server, d, hcall⟩ := hrel a rfl
            refine ⟨server, d, hcall, ?_⟩
            have := hu row hrow (.lease (.release a)) (by rw [hp]; rfl) d (by rw [hcall]; rfl)
            simpa [harmless] using this
          · intro hpast
            obtain ⟨row', hr, hconn⟩ := h.held connection hpast
            cases hrow.symm.trans hr
            exact hconn
      · have hsame : leaseOf a (exec S e.2 st c.shared).2 = leaseOf a c.shared := by
          by_cases hlease : ∃ l, st = .lease l
          · obtain ⟨l, rfl⟩ := hlease
            rw [leaseOf_lease, if_neg fun ht => hl ⟨l, rfl, ht.symm⟩]
          · exact leaseOf_exec (fun l hst => hlease ⟨l, hst⟩) hagent
        rw [hsame]
        refine h.held connection ?_
        have hother : ∀ row, stmtEvent S a e.1.1 e.2 row st = .other := by
          intro row
          cases st with
          | lease l =>
            cases l with
            | claim b d session force =>
              exact if_neg fun hb => hl ⟨_, rfl, hb.1⟩
            | revoke b => exact if_neg fun hb => hl ⟨_, rfl, hb.1⟩
            | renew b e => rfl
            | release b =>
              simp only [stmtEvent]
              split
              · exact if_neg fun hb => hl ⟨_, rfl, hb⟩
              · rfl
          | _ => rfl
        cases hrow : leaseOf a c.shared with
        | none => rw [hrow] at hc; exact hc
        | some row =>
          rw [hrow, Option.map_some, Option.getD_some, hother row] at hc
          exact hc

/-! ## The displaced disconnect -/

theorem cascade_next {p : Handler Unit} (h : p.Issues Stmt.InCascade) :
    p.next? ≠ some (.read (.inFlight a)) := fun hn => h.next hn

theorem Inv.displaced {c : Conf} {past : List Event} {e : Proc × Input} {server : ServerId}
    {connection : ConnectionId} (h : Inv S a c past) (hu : Unraced S a c e)
    (hcall : e.1.1 = .disconnect server a connection) (hd : Displaced c.shared a connection) :
    Connected (c.step (exec S) e).shared a ∧
      ((c.step (exec S) e).procs e.1).next? ≠ some (.read (.inFlight a)) := by
  obtain ⟨row, hrow, hconn, hactive⟩ := hd
  have hstage : Stage S server a connection (c.procs e.1) := by
    have ht := h.typed e.1
    unfold Typed at ht
    rw [hcall] at ht
    exact ht
  generalize hp : c.procs e.1 = prog at hstage
  cases hstage with
  | start =>
    rw [onAgentDisconnected_eq] at hp
    rw [Sys.step_stmt hp, Sys.put_shared, Sys.put_self]
    have hans : (exec S e.2 (.read (.lease a)) c.shared).1 = some row := hrow
    rw [hans]
    refine ⟨⟨row, hrow, hconn⟩, ?_⟩
    dsimp only
    rw [if_neg hactive]
    simp [Prog.next?]
  | checked =>
    have := hu row hrow (.lease (.release a)) (by rw [hp]; rfl) connection (by rw [hcall]; rfl)
    simp [harmless, hactive, hconn] at this
  | released =>
    rw [PersistBackend.reconcileOrphanedExecutorWork_eq] at hp
    have hlive : Liveness.agentIsLive S e.2.now row.connected row.lastSeen = true := by
      have := hu row hrow (.read (.agentIsLive a)) (by rw [hp]; rfl) connection
        (by rw [hcall]; rfl)
      simpa [harmless, hactive, hconn] using this
    rw [Sys.step_stmt hp, Sys.put_shared, Sys.put_self]
    have hans : (exec S e.2 (.read (.agentIsLive a)) c.shared).1 = some true := by
      unfold leaseOf at hrow
      obtain ⟨agent, hg, rfl⟩ := Option.map_eq_some_iff.mp hrow
      show (c.shared.db.agents.get a).map _ = _
      rw [hg]
      exact congrArg some hlive
    rw [hans]
    exact ⟨⟨row, hrow, hconn⟩, by simp [Prog.next?]⟩
  | judged =>
    rw [Sys.step_stmt hp, Sys.put_shared, Sys.put_self]
    exact ⟨⟨row, hrow, hconn⟩, cascade_next PersistBackend.failAndCascadeInflight_issues⟩
  | rest hi =>
    cases prog with
    | ret x => simpa [Sys.step, hp, Prog.next?] using ⟨row, hrow, hconn⟩
    | fail x => simpa [Sys.step, hp, Prog.next?] using ⟨row, hrow, hconn⟩
    | stmt st k =>
      rw [Sys.step_stmt hp, Sys.put_shared, Sys.put_self]
      refine ⟨⟨row, ?_, hconn⟩, cascade_next (hi.2 _)⟩
      rw [leaseOf_exec ?_ ?_]
      · exact hrow
      · rintro l rfl; exact hi.1.elim
      · rintro s rfl; exact hi.1.elim

/-! ## Runs -/

theorem Inv.run {c : Conf} {past : List Event} {sched : List (Proc × Input)}
    (h : Inv S a c past) (hu : Along (Sys.step (exec S)) (Unraced S a) c sched) :
    Inv S a (c.run (exec S) sched) (history S a c past sched) := by
  induction sched generalizing c past with
  | nil => exact h
  | cons e sched ih => exact ih (h.step hu.1) hu.2

/-- **The successor is spared.** In every run in which each disconnect, when it saves and when it
checks liveness for its reconcile, finds no newer connection in the row that this would harm: the
connection that made the latest claim stays connected until it is revoked or disconnects itself,
and a displaced disconnect neither clears `connected` nor starts a reconcile. -/
theorem disconnect_spares_successor (S : Settings) (a : AgentId) (w : World)
    (sched : List (Proc × Input))
    (hu : Along (Sys.step (exec S)) (Unraced S a) (start (ConnectionCall.code S) w) sched) :
    SparesSuccessor S a (start (ConnectionCall.code S) w) sched := by
  refine ⟨fun connection hh => ?_, fun pre e post hsched server connection hcall hd => ?_⟩
  · obtain ⟨row, hrow, hconn, _⟩ := ((inv_start S a w).run hu).held connection hh
    exact ⟨row, hrow, hconn⟩
  · subst hsched
    obtain ⟨hpre, hpost⟩ := along_append.mp hu
    rw [Sys.run_append]
    exact ((inv_start S a w).run hpre).displaced hpost.1 hcall hd

section Race

def registers (connection : ConnectionId) (force : Bool) : List (Proc × Input) :=
  List.replicate 6 ((.register 0 1 connection none force, 0), default)

def disconnects (connection : ConnectionId) (steps : Nat) : List (Proc × Input) :=
  List.replicate steps ((.disconnect 0 1 connection, 0), default)

/-- Connection 1 has disconnected before connection 2 registers. -/
theorem disconnect_spares_successor_in_turn :
    SparesSuccessor {} 1 (start (ConnectionCall.code {}) idleWorld)
      (registers 1 false ++ disconnects 1 4 ++ registers 2 false) :=
  disconnect_spares_successor {} 1 idleWorld _ (by decide +kernel)

/-- Connection 1's disconnect reads the row and passes its check, connection 2 takes over, and
the disconnect saves. -/
theorem disconnect_knocks_out_successor :
    ¬ SparesSuccessor {} 1 (start (ConnectionCall.code {}) idleWorld)
      (registers 1 false ++ disconnects 1 1 ++ registers 2 true ++ disconnects 1 1) := by
  intro h
  obtain ⟨row, hrow, hconn⟩ := h.1 2 (by decide +kernel)
  have hrow' : leaseOf 1 ((start (ConnectionCall.code {}) idleWorld).run (exec {})
      (registers 1 false ++ disconnects 1 1 ++ registers 2 true ++ disconnects 1 1)).shared =
        some { leaseEpoch := 2, connected := false, lastSeen := some 0,
               activeConnectionId := some 2 } := by decide +kernel
  cases hrow'.symm.trans hrow
  cases hconn

end Race

end Lease
end Rekuest
