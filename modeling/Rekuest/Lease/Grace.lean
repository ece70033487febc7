import Rekuest.Lease.Disconnect
import Rekuest.Tasks.Reclaim
import Rekuest.Timers.Pending

/-!
# Rekuest.Lease.Grace

The grace window of an agent over any number of server processes. A process keeps its own timers
for the agent; the database is shared. Events happen one after the other.

* `Event`: a connect, a disconnect, a timer that fires, or anything else the servers do to the
  database meanwhile.
* `State.next`: the world, the clock, and the most recent disconnect while its window is owed.
* `Honoured`: no orphan reconcile claims a transition before the window is over.
* `Lone`: a disconnect that releases the lease finds no timer of the agent in another process.
* `grace_honoured`: the window is honoured in every run of such disconnects.
  `stale_timer_acts`: a timer armed for an earlier disconnect acts on a later one.
-/

namespace Rekuest
namespace Grace

open Interleave Interleave.Prog

/-! ## Events -/

inductive Act where
  | connect (server : ServerId) (connection : ConnectionId) (session : Option SessionId)
    (force : Bool)
  | disconnect (server : ServerId) (connection : ConnectionId)
  /-- The timer of the agent fires in the process. -/
  | fire (server : ServerId)
  /-- Whatever else is done to the database; no grace timer is touched. -/
  | other (db : Database)

structure Event extends Moment where
  act : Act

section

variable (S : Settings) (a : AgentId)

/-- `GraceScheduler._run` after the delay: the action, and then the entry is dropped. -/
def runTimer (server : ServerId) : Handler Unit :=
  (PersistBackend.reconcileOrphanedExecutorWork server a).attempt.bind fun _ =>
    cancelTimer server .executorGrace a

def Act.code : Act → Handler Unit
  | connect server connection session force =>
    (ConnectionCall.register server a connection session force).code S
  | disconnect server connection => (ConnectionCall.disconnect server a connection).code S
  | fire server => runTimer a server
  | other _ => .ret ()

def Event.after (w : World) (e : Event) : World :=
  match e.act with
  | .other db => { w with db := db }
  | act => runAlone S (act.code S a) e.inputs w

/-! ## Runs -/

/-- The connection is the active one, so its disconnect releases the lease. -/
def releases (connection : ConnectionId) (w : World) : Bool :=
  (w.db.agents.get a).any fun row => row.activeConnectionId == some connection

def lastSeen (w : World) : Option Time := (w.db.agents.get a).bind (·.lastSeen)

def epoch (w : World) : Option Int := (w.db.agents.get a).map (·.leaseEpoch)

/-- The claim of the lease was accepted, for a different session than the active one. -/
def takenOver (session : Option SessionId) (w w' : World) : Bool :=
  PersistBackend.isFreshSession (Reclaim.activeSession a w) session && epoch a w' != epoch a w

structure State where
  world : World
  clock : Time
  /-- When the agent disconnected last, unless a different session has taken over since. -/
  owed : Option Time

def State.next (s : State) (e : Event) : State where
  world := e.after S a s.world
  clock := e.till
  owed := match e.act with
    | .connect _ _ session _ =>
      if takenOver a session s.world (e.after S a s.world) then none else s.owed
    | .disconnect _ connection =>
      if releases a connection s.world then lastSeen a (e.after S a s.world) else s.owed
    | _ => s.owed

/-- The event can happen: the clock goes on, and a timer that fires is armed and due. -/
def Possible (s : State) (e : Event) : Prop :=
  s.clock ≤ (e.inputs 0).now ∧ match e.act with
    | .fire server => ∃ due, s.world.timers server .executorGrace a = some due ∧
        due ≤ (e.inputs 0).now
    | _ => True

/-- The transition of a task is claimed no earlier than the window after the disconnect. -/
def Late (since : Time) (i : Input) (c : Stmt) (_ : World) : Prop :=
  match c with
  | .task (.claimTransition ..) => since + S.graceSeconds ≤ i.now
  | _ => True

instance (since : Time) (i : Input) (c : Stmt) (w : World) : Decidable (Late S since i c w) := by
  unfold Late
  split <;> infer_instance

/-- The event runs the reconcile of orphaned work, as a disconnect does where there is no window. -/
def Act.reconciles : Act → Prop
  | fire _ => True
  | disconnect _ _ => True
  | _ => False

/-- While a window is owed, every orphan reconcile of the agent's work claims its transitions after
the window. -/
def Honoured (s : State) (events : List Event) : Prop :=
  Along (State.next S a) (fun s e => e.act.reconciles → ∀ since, (s.next S a e).owed = some since →
    Meets (exec S) (Late S since) (e.act.code S a) e.inputs s.world) s events

/-- A disconnect that releases the lease finds no timer of the agent in another process. -/
def Lone (s : State) (e : Event) : Prop :=
  match e.act with
  | .disconnect server connection => releases a connection s.world = true →
      ∀ server', server' ≠ server → s.world.timers server' .executorGrace a = none
  | _ => True

end

/-! ## Timers -/

variable {S : Settings} {ok : Input → Stmt → World → Prop} {a : AgentId} {w w' : World} {i : Input}
  {server : ServerId} {connection : ConnectionId}

theorem orphanCascade_unarmed :
    Prog.Issues (L := Statements) (Unarmed .executorGrace) (PersistBackend.orphanCascade server a) :=
  PersistBackend.orphanCascade_built Issues.compositional (.issue trivial) fun _ =>
    PersistBackend.failAndCascade_within trivial (fun _ => trivial) (fun _ => trivial) trivial
      (fun _ _ _ => trivial) (fun _ => trivial) (fun _ _ => trivial) fun _ _ => trivial

theorem reconcile_unarmed :
    Prog.Issues (L := Statements) (Unarmed .executorGrace)
      (PersistBackend.reconcileOrphanedExecutorWork server a) := by
  rw [PersistBackend.reconcileOrphanedExecutorWork_eq]
  refine ⟨trivial, fun live => ?_⟩
  match live with
  | none => trivial
  | some true => trivial
  | some false => exact orphanCascade_unarmed

theorem onRegister_unarmed {session : Option SessionId} {force : Bool} :
    Prog.Issues (L := Statements) (Unarmed .executorGrace)
      (PersistBackend.onRegister server a connection session force) := by
  refine Issues.compositional.bind (.issue trivial) fun row => Issues.compositional.bind
    (orDoesNotExist_built Issues.compositional) fun row => ?_
  split
  · trivial
  refine Issues.compositional.bind (.issue trivial) fun _ =>
    Issues.compositional.bind ?_ fun claim => ?_
  · rw [PersistBackend.onAgentConnected_eq]
    refine Issues.compositional.bind (Issues.compositional.bind (.issue trivial) fun _ =>
      orDoesNotExist_built Issues.compositional) fun answer => ?_
    split
    swap
    · trivial
    refine Issues.compositional.bind (.issue trivial) fun _ => ?_
    unfold PersistBackend.afterClaim
    split
    · exact orphanCascade_unarmed.bind fun _ => trivial
    · exact ⟨trivial, fun _ => trivial⟩
  · split
    · exact ⟨trivial, fun _ => trivial⟩
    · exact ⟨trivial, fun _ => trivial⟩

/-! ## Disconnects -/

/-- The world after the save of a disconnect. -/
def released (S : Settings) (a : AgentId) (i : Input) (w : World) : World :=
  (exec S i (.lease (.release a)) w).2

theorem lastSeen_released (hr : releases a connection w = true) :
    lastSeen a (released S a i w) = some i.now := by
  obtain ⟨agent, hg, _⟩ := (Option.any_eq_true _ _).mp hr
  have hget : ((LeaseStmt.release a).exec S i w.db).2.agents.get a =
      some (agent.setLease (agent.toLeaseColumns.release i)) := by
    rw [LeaseStmt.get_exec, hg]
    exact if_pos rfl
  have hget' : (released S a i w).db.agents.get a = _ := hget
  unfold lastSeen
  rw [hget']
  rfl

section Disconnect

variable {inputs : Nat → Input}

theorem disconnect_eq : (Act.disconnect server connection).code S a =
    .stmt (.read (.lease a)) fun row => match row with
      | none => .fail (.doesNotExist "Agent")
      | some row =>
        if row.activeConnectionId = some connection then
          .stmt (.lease (.release a)) fun _ => Lease.afterRelease S server a
        else .ret () := Lease.onAgentDisconnected_eq

theorem lease_answer (i : Input) :
    (exec S i (.read (.lease a)) w).1 = (w.db.agents.get a).map (·.toLeaseColumns) := rfl

/-- What is left of the disconnect once it has read the row. -/
theorem run_released (hr : releases a connection w = true) :
    runAlone S ((Act.disconnect server connection).code S a) inputs w =
      runAlone S (Lease.afterRelease S server a) (fun n => inputs (n + 2))
        (released S a (inputs 1) w) := by
  obtain ⟨agent, hg, hactive⟩ := (Option.any_eq_true _ _).mp hr
  rw [disconnect_eq]
  unfold runAlone
  rw [run_stmt, lease_answer, hg]
  dsimp only [Option.map_some]
  rw [if_pos (eq_of_beq hactive)]
  rfl

theorem meets_released (hr : releases a connection w = true) :
    Meets (exec S) ok ((Act.disconnect server connection).code S a) inputs w ↔
      ok (inputs 0) (.read (.lease a)) w ∧ ok (inputs 1) (.lease (.release a)) w ∧
        Meets (exec S) ok (Lease.afterRelease S server a) (fun n => inputs (n + 2))
          (released S a (inputs 1) w) := by
  obtain ⟨agent, hg, hactive⟩ := (Option.any_eq_true _ _).mp hr
  rw [disconnect_eq]
  dsimp only [Meets]
  rw [lease_answer, hg]
  dsimp only [Option.map_some]
  rw [if_pos (eq_of_beq hactive)]
  exact Iff.rfl

theorem not_active (hr : releases a connection w = false) {agent : Agent}
    (hg : w.db.agents.get a = some agent) : ¬ agent.activeConnectionId = some connection := by
  intro h
  rw [releases, hg, Option.any_some, h, beq_self_eq_true] at hr
  cases hr

/-- A connection that is no longer the active one does nothing more than read the row. -/
theorem run_displaced (hr : releases a connection w = false) :
    runAlone S ((Act.disconnect server connection).code S a) inputs w = w := by
  rw [disconnect_eq]
  unfold runAlone
  rw [run_stmt, lease_answer]
  cases hg : w.db.agents.get a with
  | none => rfl
  | some agent =>
    dsimp only [Option.map_some]
    rw [if_neg (not_active hr hg)]
    rfl

theorem meets_displaced (hr : releases a connection w = false)
    (hread : ok (inputs 0) (.read (.lease a)) w) :
    Meets (exec S) ok ((Act.disconnect server connection).code S a) inputs w := by
  rw [disconnect_eq]
  dsimp only [Meets]
  rw [lease_answer]
  refine ⟨hread, ?_⟩
  cases hg : w.db.agents.get a with
  | none => trivial
  | some agent =>
    dsimp only [Option.map_some]
    rw [if_neg (not_active hr hg)]
    trivial

end Disconnect

/-- The statement writes no row of an agent. -/
def NoAgent : Stmt → Prop
  | .lease _ => False
  | .agent _ => False
  | _ => True

theorem lastSeen_exec {c : Stmt} (hc : NoAgent c) : lastSeen a (exec S i c w).2 = lastSeen a w := by
  have hl : ∀ l, c ≠ .lease l := by
    rintro l rfl
    exact hc
  have hr : ∀ r, c ≠ .agent r := by
    rintro r rfl
    exact hc
  have hlease := Lease.leaseOf_exec (S := S) (i := i) (w := w) (a := a) hl hr
  have heq : ∀ w, lastSeen a w = (Lease.leaseOf a w).bind (·.lastSeen) := by
    intro w
    unfold lastSeen Lease.leaseOf
    cases w.db.agents.get a <;> rfl
  rw [heq, heq, hlease]

theorem reconcile_noAgent : Prog.Issues (L := Statements) NoAgent
    (PersistBackend.reconcileOrphanedExecutorWork server a) := by
  rw [PersistBackend.reconcileOrphanedExecutorWork_eq]
  refine ⟨trivial, fun live => ?_⟩
  match live with
  | none => trivial
  | some true => trivial
  | some false =>
    exact PersistBackend.orphanCascade_built Issues.compositional (.issue trivial) fun _ =>
      PersistBackend.failAndCascade_within trivial (fun _ => trivial) (fun _ => trivial) trivial
        (fun _ _ _ => trivial) (fun _ => trivial) (fun _ _ => trivial) fun _ _ => trivial

/-- The reconcile leaves the agents' rows alone. -/
theorem lastSeen_reconcile {inputs : Nat → Input} :
    lastSeen a (runAlone S (PersistBackend.reconcileOrphanedExecutorWork server a) inputs w) =
      lastSeen a w := by
  have hkeeps : Keeps (exec S) anyStep (fun w' => lastSeen a w' = lastSeen a w)
      (PersistBackend.reconcileOrphanedExecutorWork server a) := by
    refine reconcile_noAgent.keeps ?_
    intro i c w' hc _ h
    exact (lastSeen_exec hc).trans h
  exact hkeeps.run rfl meets_any

/-! ## Runs -/

/-- The window that is owed has begun, and no timer of the agent ends before it does. -/
structure Inv (S : Settings) (a : AgentId) (s : State) : Prop where
  begun : ∀ since, s.owed = some since → since ≤ s.clock
  timers : 0 < S.graceSeconds → ∀ since, s.owed = some since →
    ∀ server due, s.world.timers server .executorGrace a = some due → since + S.graceSeconds ≤ due

variable {s : State} {e : Event}

/-- Nothing was armed, and no later window is owed. -/
theorem Inv.of_fewer (h : Inv S a s) {s' : State} (hclock : s.clock ≤ s'.clock)
    (howed : ∀ since, s'.owed = some since → s.owed = some since)
    (hfewer : Fewer .executorGrace a s.world s'.world) : Inv S a s' where
  begun since hs := (h.begun since (howed since hs)).trans hclock
  timers hgrace since hs server due hd :=
    h.timers hgrace since (howed since hs) server due (hfewer server due hd)

theorem Event.clock_le (e : Event) (hpossible : Possible a s e) :
    s.clock ≤ (s.next S a e).clock := by
  exact hpossible.1.trans (e.ended 0)

theorem fewer_connect {session : Option SessionId} {force : Bool}
    (he : e.act = .connect server connection session force) : Fewer .executorGrace a w (e.after S a w) := by
  unfold Event.after
  rw [he]
  exact fewer_run (discard_built Issues.compositional onRegister_unarmed)

section

variable (he : e.act = .disconnect server connection)

include he

theorem after_displaced (hr : releases a connection w = false) : e.after S a w = w := by
  unfold Event.after
  rw [he]
  exact run_displaced hr

theorem after_released (hr : releases a connection w = true) : e.after S a w =
    runAlone S (Lease.afterRelease S server a) (fun n => e.inputs (n + 2))
      (released S a (e.inputs 1) w) := by
  unfold Event.after
  rw [he]
  exact run_released hr

theorem owed_displaced (hr : releases a connection s.world = false) :
    (s.next S a e).owed = s.owed := by
  unfold State.next
  rw [he]
  simp [hr]

/-- The window begins with the save of the disconnect. -/
theorem owed_released (hr : releases a connection s.world = true) :
    (s.next S a e).owed = some (e.inputs 1).now := by
  have howed : (s.next S a e).owed = lastSeen a (e.after S a s.world) := by
    unfold State.next
    rw [he]
    simp [hr]
  rw [howed, after_released he hr, ← lastSeen_released (S := S) hr]
  unfold Lease.afterRelease
  split
  · exact lastSeen_reconcile
  · rfl

end

theorem Inv.disconnect (h : Inv S a s) (he : e.act = .disconnect server connection)
    (hpossible : Possible a s e) (hlone : Lone a s e) : Inv S a (s.next S a e) := by
  cases hr : releases a connection s.world with
  | false =>
    refine h.of_fewer (e.clock_le hpossible) (fun since hs => ?_) ?_
    · rwa [owed_displaced he hr] at hs
    · show Fewer .executorGrace a s.world (e.after S a s.world)
      rw [after_displaced he hr]
      exact .refl
  | true =>
    have howed := owed_released (S := S) he hr
    refine ⟨fun since hs => ?_, fun hgrace since hs server' due hd => ?_⟩
    · cases howed.symm.trans hs
      exact e.ended 1
    · cases howed.symm.trans hs
      have hd' : (e.after S a s.world).timers server' .executorGrace a = some due := hd
      rw [after_released he hr, Lease.afterRelease, if_neg (not_le.mpr hgrace)] at hd'
      have hset : ((released S a (e.inputs 1) s.world).setTimer server .executorGrace a
        (some ((e.inputs 2).now + S.graceSeconds))).timers server' .executorGrace a = some due := hd'
      rw [setTimer_timers] at hset
      split at hset
      · cases hset
        exact Int.add_le_add_right (e.ordered 1 2 (by omega)) _
      · rename_i hne
        have hother : server' ≠ server := fun heq => hne ⟨heq, rfl, rfl⟩
        unfold Lone at hlone
        rw [he] at hlone
        have hsame : (released S a (e.inputs 1) s.world).timers = s.world.timers := rfl
        rw [hsame, hlone hr server' hother] at hset
        cases hset

theorem Inv.step (h : Inv S a s) (hpossible : Possible a s e) (hlone : Lone a s e) :
    Inv S a (s.next S a e) := by
  have hclock := e.clock_le (S := S) hpossible
  cases he : e.act with
  | connect server connection session force =>
    refine h.of_fewer hclock (fun since hs => ?_) (fewer_connect he)
    unfold State.next at hs
    rw [he] at hs
    dsimp only at hs
    split at hs
    · cases hs
    · exact hs
  | disconnect server connection => exact h.disconnect he hpossible hlone
  | fire server =>
    have hcancel : Prog.Issues (L := Statements) (Unarmed .executorGrace) (cancelTimer server .executorGrace a) :=
      .issue trivial
    refine h.of_fewer hclock (fun since hs => ?_) ?_
    · unfold State.next at hs
      rw [he] at hs
      exact hs
    · show Fewer .executorGrace a s.world (e.after S a s.world)
      unfold Event.after
      rw [he]
      exact fewer_run (reconcile_unarmed.attempt.bind fun _ => hcancel)
  | other db =>
    refine h.of_fewer hclock (fun since hs => ?_) ?_
    · unfold State.next at hs
      rw [he] at hs
      exact hs
    · show Fewer .executorGrace a s.world (e.after S a s.world)
      unfold Event.after
      rw [he]
      exact .refl

/-! ## The window -/

theorem meets_late {α : Type} {p : Handler α} {inputs : Nat → Input} {since : Time}
    (h : ∀ n, since + S.graceSeconds ≤ (inputs n).now) :
    Meets (exec S) (Late S since) p inputs w := by
  induction p generalizing inputs w with
  | ret a => trivial
  | fail e => trivial
  | stmt c k ih =>
    refine ⟨?_, ih _ fun n => h (n + 1)⟩
    unfold Late
    split
    · exact h 0
    · trivial

/-- Where a window is owed after an event, a reconcile in it comes after the window. -/
theorem honoured_step (h : Inv S a s) (hpossible : Possible a s e) (hreconciles : e.act.reconciles)
    {since : Time} (howed : (s.next S a e).owed = some since) :
    Meets (exec S) (Late S since) (e.act.code S a) e.inputs s.world := by
  cases he : e.act with
  | connect server connection session force =>
    rw [he] at hreconciles
    cases hreconciles
  | other db =>
    rw [he] at hreconciles
    cases hreconciles
  | fire server =>
    have hsame : (s.next S a e).owed = s.owed := by
      unfold State.next
      rw [he]
    rw [hsame] at howed
    obtain ⟨hclock, hdue⟩ := hpossible
    rw [he] at hdue
    obtain ⟨due, hdue, hpast⟩ := hdue
    have hlate : since + S.graceSeconds ≤ (e.inputs 0).now := by
      by_cases hgrace : 0 < S.graceSeconds
      · exact (h.timers hgrace since howed server due hdue).trans hpast
      · have hbegun := (h.begun since howed).trans hclock
        exact (add_le_self (not_lt.mp hgrace)).trans hbegun
    exact meets_late fun n => hlate.trans (e.ordered 0 n (Nat.zero_le n))
  | disconnect server connection =>
    cases hr : releases a connection s.world with
    | false => exact meets_displaced hr trivial
    | true =>
      rw [owed_released he hr] at howed
      cases howed
      refine (meets_released hr).mpr ⟨trivial, trivial, ?_⟩
      unfold Lease.afterRelease
      split
      · rename_i hgrace
        refine meets_late fun n => ?_
        exact (add_le_self hgrace).trans (e.ordered 1 (n + 2) (by omega))
      · exact ⟨trivial, trivial⟩

/-- **The grace window is honoured** in every run in which a disconnect finds no timer of the agent
in another process. -/
theorem grace_honoured (S : Settings) (a : AgentId) (w : World) (start : Time)
    (events : List Event)
    (hrun : Along (State.next S a) (fun s e => Possible a s e ∧ Lone a s e) ⟨w, start, none⟩ events) :
    Honoured S a ⟨w, start, none⟩ events := by
  have hstart : Inv S a ⟨w, start, none⟩ := by
    constructor
    · intro since hs
      cases hs
    · intro _ since hs
      cases hs
  refine (hrun.with_inv (fun s e h hok => h.step hok.1 hok.2) hstart).mono ?_
  intro s e h hreconciles since howed
  exact honoured_step h.1 h.2.1 hreconciles howed

/-! ## Two processes -/

def moment (t : Time) (act : Act) : Event := { Moment.still t with act := act }

/-- A window of thirty seconds. -/
def graceful : Settings := { graceDefault := some 30 }

/-- Agent 1 connects and disconnects at one process, and the timer fires there. -/
def oneProcess : List Event :=
  [moment 0 (.connect 0 1 (some 1) true), moment 1 (.disconnect 0 1), moment 31 (.fire 0)]

theorem oneProcess_honoured : Honoured graceful 1 ⟨Reclaim.lostWorld, 0, none⟩ oneProcess := by
  refine grace_honoured graceful 1 Reclaim.lostWorld 0 oneProcess ⟨⟨⟨by decide, trivial⟩, trivial⟩,
    ⟨⟨by decide, trivial⟩, fun _ server _ => ?_⟩, ⟨⟨by decide, 31, ?_, by decide⟩, trivial⟩, trivial⟩
  · have hfewer : Fewer .executorGrace 1 Reclaim.lostWorld ((moment 0 (.connect 0 1 (some 1) true)).after graceful 1
      Reclaim.lostWorld) := fewer_connect rfl
    exact hfewer.none rfl
  · rfl

/-- The session connects and disconnects again at another process: the timer of the first disconnect
acts after half of the second window. -/
theorem stale_timer_acts : ¬ Honoured graceful 1 ⟨Reclaim.lostWorld, 0, none⟩
    [moment 0 (.connect 0 1 (some 1) true), moment 1 (.disconnect 0 1),
      moment 10 (.connect 1 2 (some 1) true), moment 20 (.disconnect 1 2), moment 31 (.fire 0)] := by
  intro h
  have hfire := h.2.2.2.2.1 trivial 20 (by decide +kernel)
  revert hfire
  decide +kernel

end Grace
end Rekuest
