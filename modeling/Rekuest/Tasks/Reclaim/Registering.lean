import Rekuest.Interleave.Rely
import Rekuest.Lease.Writers
import Rekuest.Tasks.Cascade
import Rekuest.Tasks.Linked

/-!
# Rekuest.Tasks.Reclaim.Registering

Calls of the server side by side, their statements in any order, and the processes that register a
connection of one agent among them.

* `State.next`: a process issues its next statement, or it dies. The state remembers the process whose
  claim of the agent's lease was accepted last.
* `Careful`: what a step must not do.
* `Shape`: what a process has left to run, by what it has come to: it has nothing to do with the lease,
  it has not claimed it yet, it reclaims, or it takes over.
* `Orderly`: every process has a shape, and its session is active while it has more to do.
  `Orderly.step`: a careful step keeps it.
-/

namespace Rekuest
namespace Reclaim

open Interleave Interleave.Prog

/-! ## Runs -/

structure State where
  world : World
  procs : Nat → Handler Unit
  /-- The process whose claim was accepted last, and whether it took the lease from another session. -/
  holder : Option (Nat × Bool) := none

inductive Move where
  | run (p : Nat) (i : Input)
  | crash (p : Nat)

section

variable (S : Settings) (a : AgentId)

def activeSession (w : World) : Option SessionId :=
  (w.db.agents.get a).bind (·.activeSessionId)

/-- The agent has work in flight. -/
def busy (w : World) : Bool :=
  !(w.db.tasks.select fun _ task => task.agent = a && !task.isDone).isEmpty

/-- An accepted claim of the agent's lease, by a session that stands so to the active one. -/
def claims (p : Option SessionId → Option SessionId → Bool) (i : Input) (w : World) : Stmt → Bool
  | .lease (.claim b connection session force) => b == a &&
      (w.db.agents.get b).any fun row => p row.activeSessionId session &&
        (row.toLeaseColumns.claim S i connection session force).1.claimed
  | _ => false

def accepts (i : Input) (w : World) (c : Stmt) : Bool := claims S a (fun _ _ => true) i w c

/-- The claim wipes out which session was active. -/
def forgets (prior session : Option SessionId) : Bool := prior.isSome && session.isNone

def State.next (s : State) : Move → State
  | .run p i => match s.procs p with
    | .stmt c k => {
        world := (exec S i c s.world).2
        procs := Function.update s.procs p (k (exec S i c s.world).1)
        holder := if accepts S a i s.world c then
            some (p, claims S a PersistBackend.isFreshSession i s.world c)
          else s.holder }
    | _ => s
  | .crash p => { s with procs := Function.update s.procs p (.ret ()) }

/-- Every call in a process of its own. -/
def State.begin (calls : Nat → Call) (w : World) : State :=
  { world := w, procs := fun p => (calls p).code S }

abbrev State.runMoves (s : State) (moves : List Move) : State := moves.foldl (State.next S a) s

/-- An accepted claim finds the process of the last one at its end, and does not wipe out the active
session while work is in flight; and no save of a row loaded earlier changes the lease columns. -/
structure CarefulStmt (s : State) (p : Nat) (i : Input) (c : Stmt) : Prop where
  keeps : Lease.Writers.keepsLease a s.world c = true
  alone : accepts S a i s.world c = true → ∀ h ∈ s.holder, h.1 ≠ p →
    (s.procs h.1).next?.isSome = false
  remembers : busy a s.world = true → claims S a forgets i s.world c = false

instance (s : State) (p : Nat) (i : Input) (c : Stmt) : Decidable (CarefulStmt S a s p i c) :=
  decidable_of_iff (_ ∧ _ ∧ _) ⟨fun h => ⟨h.1, h.2.1, h.2.2⟩, fun h => ⟨h.keeps, h.alone, h.remembers⟩⟩

/-- A careful statement; and while work is in flight, the process that took the lease from another
session does not die before its end. -/
def Careful (s : State) : Move → Prop
  | .run p i => ∀ c ∈ (s.procs p).next?, CarefulStmt S a s p i c
  | .crash p => busy a s.world = true → s.holder = some (p, true) →
      (s.procs p).next?.isSome = false

instance (s : State) : (m : Move) → Decidable (Careful S a s m)
  | .run p i => inferInstanceAs (Decidable (∀ c ∈ (s.procs p).next?, CarefulStmt S a s p i c))
  | .crash p => inferInstanceAs (Decidable (busy a s.world = true → s.holder = some (p, true) →
      (s.procs p).next?.isSome = false))

end

/-! ## Sessions -/

variable {S : Settings} {a : AgentId} {t : TaskId} {w w' : World} {i : Input} {c : Stmt}
  {session session' : Option SessionId} {server : ServerId} {connection : ConnectionId}
  {force : Bool}

/-- The agent is there, and the session is the active one. -/
def ActiveIs (a : AgentId) (w : World) (session : Option SessionId) : Prop :=
  ∃ row, Lease.leaseOf a w = some row ∧ row.activeSessionId = session

theorem ActiveIs.unique (h : ActiveIs a w session) (h' : ActiveIs a w session') :
    session = session' := by
  obtain ⟨row, hrow, rfl⟩ := h
  obtain ⟨row', hrow', rfl⟩ := h'
  cases hrow.symm.trans hrow'
  rfl

theorem activeIs_some {s : SessionId} : ActiveIs a w (some s) ↔ activeSession a w = some s := by
  unfold ActiveIs activeSession Lease.leaseOf
  cases w.db.agents.get a with
  | none =>
    constructor
    · rintro ⟨_, h, _⟩
      cases h
    · intro h
      cases h
  | some agent =>
    constructor
    · rintro ⟨_, h, hs⟩
      cases h
      exact hs
    · intro h
      exact ⟨_, rfl, h⟩

theorem claims_iff {p : Option SessionId → Option SessionId → Bool} {row : LeaseColumns}
    {connection : Option ConnectionId} (hrow : Lease.leaseOf a w = some row) :
    claims S a p i w (.lease (.claim a connection session force)) = true ↔
      p row.activeSessionId session = true ∧
        (row.claim S i connection session force).1.claimed = true := by
  obtain ⟨agent, hget, rfl⟩ := Option.map_eq_some_iff.mp hrow
  unfold claims
  simp [hget]

/-- Only an accepted claim changes the active session. -/
theorem ActiveIs.exec (h : ActiveIs a w session) (hkeeps : Lease.Writers.keepsLease a w c = true)
    (haccepts : accepts S a i w c = false) : ActiveIs a (exec S i c w).2 session := by
  obtain ⟨row, hrow, hsession⟩ := h
  cases c with
  | agent c => exact ⟨row, Lease.Writers.leaseOf_agent hrow hkeeps, hsession⟩
  | lease c =>
    unfold ActiveIs
    rw [Lease.leaseOf_lease, hrow]
    split
    swap
    · exact ⟨row, rfl, hsession⟩
    rename_i htarget
    subst htarget
    refine ⟨_, rfl, ?_⟩
    cases c with
    | claim b connection session' force =>
      have hrefused : (row.claim S i connection session' force).1.claimed = false := by
        refine Bool.eq_false_of_not_eq_true fun hclaimed => ?_
        have htrue : accepts S b i w (.lease (.claim b connection session' force)) = true :=
          (claims_iff hrow).mpr ⟨rfl, hclaimed⟩
        exact Bool.false_ne_true (haccepts.symm.trans htrue)
      show ((row.claim S i connection session' force).2).activeSessionId = _
      rw [Lease.claim_refused hrefused, hsession]
    | revoke b =>
      show ((row.revoke S i).2).activeSessionId = _
      unfold LeaseColumns.revoke
      split <;> exact hsession
    | renew b epoch =>
      show ((row.renew i epoch).2).activeSessionId = _
      unfold LeaseColumns.renew
      split <;> exact hsession
    | release b => exact hsession
  | _ =>
    unfold ActiveIs
    rw [Lease.leaseOf_exec (fun _ h => by cases h) (fun _ h => by cases h)]
    exact ⟨row, hrow, hsession⟩

theorem not_fresh {s s' : SessionId}
    (h : PersistBackend.isFreshSession (some s) (some s') = false) : s' = s := by
  have hsame : some s = some s' := by simpa [PersistBackend.isFreshSession] using h
  exact (Option.some.inj hsame).symm

/-! ## Other calls -/

/-- The statement neither claims the agent's lease nor sends it an Init. -/
def Elsewhere (a : AgentId) : Stmt → Prop
  | .lease (.claim b _ _ _) => b ≠ a
  | .deliver (.send _ (.init b _)) => b ≠ a
  | _ => True

theorem accepts_elsewhere (hc : Elsewhere a c) : accepts S a i w c = false := by
  unfold accepts claims
  split
  · rename_i b _ _ _
    have hb : (b == a) = false := beq_eq_false_iff_ne.mpr hc
    rw [hb]
    rfl
  · rfl

theorem orphanCascade_elsewhere {b : AgentId} : Prog.Issues (L := Statements) (Elsewhere a)
    (PersistBackend.orphanCascade server b) :=
  PersistBackend.orphanCascade_built Issues.compositional (.issue trivial) fun _ =>
    PersistBackend.failAndCascade_within trivial (fun _ => trivial) (fun _ => trivial) trivial
      (fun _ _ _ => trivial) (fun _ => trivial) (fun _ _ => trivial) fun _ _ => trivial

theorem elsewhere_reconciles :
    PersistBackend.Reconciles fun _ p => Prog.Issues (L := Statements) (Elsewhere a) p where
  toCompositional := Issues.compositional
  read _ := .issue trivial
  timer _ := .issue trivial
  revoke _ := .issue trivial
  cascade _ _ := orphanCascade_elsewhere

theorem connectionCall_elsewhere {c : ConnectionCall}
    (hc : ∀ server connection session force, c ≠ .register server a connection session force) :
    Prog.Issues (L := Statements) (Elsewhere a) (c.code S) := by
  refine elsewhere_reconciles.sweeps.connectionCall (fun server b connection session force h => ?_)
    (fun _ _ _ => .issue trivial)
    fun _ _ _ _ => elsewhere_reconciles.sweeps.onAgentDisconnected (.issue trivial)
  have hb : b ≠ a := by
    rintro rfl
    exact hc server connection session force h
  exact elsewhere_reconciles.onRegister (fun _ => .issue hb) (fun _ => .issue trivial)
    (fun _ => .issue trivial) (.issue hb)

theorem postmanCall_elsewhere {c : PostmanCall} :
    Prog.Issues (L := Statements) (Elsewhere a) (c.code S) := by
  have hassigns : Assigns fun _ p => Prog.Issues (L := Statements) (Elsewhere a) p :=
    { toCompositional := Issues.compositional
      read := fun _ => .issue trivial
      caller := fun _ => .issue trivial
      create := fun _ _ => .issue trivial
      push := fun _ _ => .issue trivial
      post := fun _ _ => .issue trivial }
  refine hassigns.postmanCall (fun op target => ?_) (fun _ => .issue trivial) Issues.attempt
  exact Issues.compositional.bind (.issue trivial) fun _ => Issues.compositional.bind
    (createEvent_built Issues.compositional (.issue trivial)) fun _ => broadcast_built
      Issues.compositional (.issue trivial) (.issue trivial) (.issue trivial)

theorem call_elsewhere {c : Call} (hc : ∀ server connection session force,
    c ≠ .connection (.register server a connection session force)) :
    Prog.Issues (L := Statements) (Elsewhere a) (c.code S) := by
  cases c with
  | connection c =>
    exact connectionCall_elsewhere fun server connection session force h =>
      hc server connection session force (congrArg Call.connection h)
  | agent c =>
    exact AgentCall.built Issues.compositional (fun _ => .issue trivial) (fun _ => .issue trivial)
      (fun _ _ => broadcast_built Issues.compositional (.issue trivial) (.issue trivial)
        (.issue trivial)) c
  | report c =>
    refine c.issues.mono fun st hst => ?_
    cases st with
    | lease c => exact hst.elim
    | deliver c => exact hst.elim
    | _ => trivial
  | postman c => exact postmanCall_elsewhere

/-! ## The cascade -/

/-- The task has ended, or reconciliation has marked it. -/
def Settled (t : TaskId) (w : World) : Prop :=
  ∃ task, w.db.tasks.get t = some task ∧ (task.isDone = true ∨
    task.latestEventKind = .queued ∨ task.latestEventKind = .disconnected)

def Stored (a : AgentId) (t : TaskId) (w : World) : Prop :=
  ∃ task, w.db.tasks.get t = some task ∧ task.agent = a

/-- Rows go on as rows do, and the agent stays. -/
structure Later (a : AgentId) (w w' : World) : Prop where
  evolves : w.db.Evolves w'.db
  agent : (w.db.agents.get a).isSome = true → (w'.db.agents.get a).isSome = true

theorem later_rely : Rely (exec S) (fun _ => True) (Later a) where
  refl _ := ⟨.refl, id⟩
  trans h h' := ⟨h.evolves.trans h'.evolves, h'.agent ∘ h.agent⟩
  step _ _ _ _ := ⟨exec_evolves, exec_agents_there⟩

theorem Stored.later (h : Stored a t w) (hw : Later a w w') : Stored a t w' := by
  obtain ⟨task, hg, ha⟩ := h
  obtain ⟨task', hg', he⟩ := hw.evolves.tasks hg
  exact ⟨task', hg', by rw [he.agent_eq, ha]⟩

/-- The program returns. -/
def Returns {α : Type} (r : Except Error α) (_ : World) : Prop := ∃ x, r = .ok x

/-- Whatever others do to it within `Later`, the program returns. -/
abbrev Runs (S : Settings) (a : AgentId) {α : Type} (p : Handler α) (w : World) : Prop :=
  Prog.Secures (exec S) (Later a) Returns p w

/-- Whatever others do within `Later`, the task is settled at one of the statements. -/
abbrev Settles (S : Settings) (a : AgentId) (t : TaskId) {α : Type} (p : Handler α) (w : World) :
    Prop :=
  Prog.Passes (exec S) (Later a) (Settled t) p w

theorem issues_any {α : Type} (p : Handler α) : Prog.Issues (L := Statements) (fun _ => True) p := by
  induction p with
  | ret x => trivial
  | fail e => trivial
  | stmt c k ih => exact ⟨trivial, ih⟩

theorem Runs.returns {α : Type} {p : Handler α} (h : Runs S a p w) :
    Prog.Secures (exec S) (Later a) (fun r w' => Returns r w' ∧ Later a w w') p w :=
  h.and (Secures.of_issues later_rely (issues_any p)) fun _ _ h h' => ⟨h, h'⟩

theorem Runs.bind {α β : Type} {p : Handler α} {f : α → Handler β} (hp : Runs S a p w)
    (hf : ∀ x w', Later a w w' → Runs S a (f x) w') : Runs S a (p.bind f) w := by
  refine hp.returns.bind later_rely (fun x w' h => hf x w' h.2) fun e w' h => ?_
  obtain ⟨⟨x, hx⟩, _⟩ := h
  cases hx

theorem Settles.after {α β : Type} {p : Handler α} {f : α → Handler β} (hp : Runs S a p w)
    (hf : ∀ x w', Later a w w' → Settles S a t (f x) w') : Settles S a t (p.bind f) w := by
  refine Passes.bind_right later_rely hp.returns (fun x w' h => hf x w' h.2) fun e w' h => ?_
  obtain ⟨⟨x, hx⟩, _⟩ := h
  cases hx

theorem runs_ret {α : Type} {x : α} : Runs S a (.ret x) w := fun _ _ => ⟨x, rfl⟩

theorem runs_issue {c : Stmt} : Runs S a (Prog.issue (L := Statements) c) w :=
  fun _ _ _ _ _ => ⟨_, rfl⟩

theorem runs_createEvent {event : TaskEvent} (h : Stored a event.task w) :
    Runs S a (createEvent event) w := by
  intro w' hw i
  obtain ⟨task, hg, _⟩ := h.later hw
  rw [exec_createEvent (by rw [hg]; rfl)]
  exact runs_ret

theorem runs_broadcast {m : ToAgentMessage} (h : (w.db.agents.get a).isSome = true) :
    Runs S a (broadcast a m) w := by
  intro w' hw i
  obtain ⟨agent, hagent⟩ := Option.isSome_iff_exists.mp (hw.agent h)
  show Runs S a ((orDoesNotExist "Agent" (w'.db.agents.get a)).bind _) w'
  rw [hagent, orDoesNotExist, ret_bind]
  cases agent.kind with
  | websocket => exact runs_issue
  | webhook =>
    show Runs S a (if _ then _ else _) w'
    split
    · exact runs_issue
    · exact runs_ret

/-- Whether the transition is taken or not, the task is settled then. -/
theorem settled_claimTransition {id : TaskId} {kind : TaskEventKind} {markDone : Bool}
    {skip : Option TaskEventKind} (h : Stored a id w)
    (hkind : kind = .queued ∨ kind = .disconnected ∨ markDone = true)
    (hskip : ∀ kind ∈ skip, kind = .queued ∨ kind = .disconnected) :
    Settled id (exec S i (.task (.claimTransition id kind markDone skip)) w).2 ∧
      ∃ won, (exec S i (.task (.claimTransition id kind markDone skip)) w).1 = some won := by
  obtain ⟨task, hg, _⟩ := h
  by_cases hlost : task.isDone = true ∨ skip = some task.latestEventKind
  · simp only [exec]
    rw [claimTransition_exec_lost hg hlost]
    exact ⟨⟨task, hg, hlost.imp_right fun heq => hskip _ heq⟩, false, rfl⟩
  · obtain ⟨hd, hs⟩ := not_or.mp hlost
    simp only [exec]
    rw [claimTransition_exec_won hg (by simpa using hd) hs]
    refine ⟨⟨_, Database.get_saveTask_self.trans (by rw [hg]; rfl), ?_⟩, true, rfl⟩
    rcases hkind with rfl | rfl | rfl
    · exact .inr (.inl rfl)
    · exact .inr (.inr rfl)
    · exact .inl (by simp [TaskUpdate.apply])

section Rounds

variable {id : TaskId} {kind : TaskEventKind} {markDone : Bool} {skip : Option TaskEventKind}

theorem runs_claimAndRecord {f : Bool → Handler Unit} (h : Stored a id w)
    (hkind : kind = .queued ∨ kind = .disconnected ∨ markDone = true)
    (hskip : ∀ kind ∈ skip, kind = .queued ∨ kind = .disconnected)
    (hf : ∀ won w', Later a w w' → Runs S a (f won) w') : Runs S a
      ((PersistBackend.claimTaskTransitionSync id kind markDone skip).bind f) w := by
  refine Runs.bind (fun w' hw i => ?_) hf
  obtain ⟨_, won, hwon⟩ := settled_claimTransition (S := S) (i := i) (h.later hw) hkind hskip
  rw [hwon]
  exact runs_ret

theorem settles_claimAndRecord {f : Bool → Handler Unit} (h : Stored a id w)
    (hkind : kind = .queued ∨ kind = .disconnected ∨ markDone = true)
    (hskip : ∀ kind ∈ skip, kind = .queued ∨ kind = .disconnected) : Settles S a id
      ((PersistBackend.claimTaskTransitionSync id kind markDone skip).bind f) w :=
  fun _ hw _ => .inl (settled_claimTransition (h.later hw) hkind hskip).1

theorem runs_buildRedispatch (h : Stored a id w) :
    Runs S a (PersistBackend.buildRedispatchAssignSync id) w := by
  intro w' hw i
  obtain ⟨task, hg, _⟩ := h.later hw
  have hsource : ∃ source, (exec S i (.read (.redispatchSource id)) w').1 = some source := by
    simp only [exec, Query.eval, hg]
    exact ⟨_, rfl⟩
  obtain ⟨source, hsource⟩ := hsource
  show Runs S a ((orDoesNotExist "Task" (exec S i (.read (.redispatchSource id)) w').1).bind _) w'
  rw [hsource]
  dsimp only [orDoesNotExist, ret_bind]
  split
  · intro w'' hw' j
    dsimp only [ret_bind]
    split <;> exact runs_ret
  · exact runs_ret

variable {row : InFlight}

/-- The round of a task that is there, on any row of it. -/
theorem round_of {Q : Handler Unit → World → Prop} (hr : Stored a row.id w)
    (htimer : ∀ f : Unit → Handler Unit, (∀ w', Later a w w' → Q (f ()) w') →
      Q ((cancelTimer server .autoInterrupt row.id).bind f) w)
    (hredispatch : ∀ w' (f : Option Assign → Handler Unit), Later a w w' →
      (∀ assign w'', Later a w w'' → Q (f assign) w'') →
      Q ((PersistBackend.buildRedispatchAssignSync row.id).bind f) w')
    (hfail : ∀ w', Stored a row.id w' → Later a w w' → Q (PersistBackend.failPhysicalTask row.id) w')
    (hdisconnect : ∀ w', Stored a row.id w' → Later a w w' →
      Q (PersistBackend.disconnectTask row.id) w')
    (hrequeue : ∀ assign w', Stored a row.id w' → Later a w w' →
      Q (PersistBackend.requeueTask row.id row.task.agent assign) w') :
    Q (PersistBackend.failAndCascade server row) w := by
  refine htimer _ fun w' hw => ?_
  have hdisconnect' : ∀ w'', Later a w w'' → Q (PersistBackend.disconnectTask row.id) w'' :=
    fun w'' hw' => hdisconnect w'' (hr.later hw') hw'
  dsimp only
  split
  · exact hfail w' (hr.later hw) hw
  split
  · refine hredispatch w' _ hw fun assign w'' hw' => ?_
    cases assign with
    | none => exact hdisconnect' w'' hw'
    | some assign => exact hrequeue assign w'' (hr.later hw') hw'
  · exact hdisconnect' w' hw

theorem runs_record {kind : TaskEventKind} {message : Option EventText} (h : Stored a id w) :
    Runs S a (createEvent { task := id, kind := kind, message := message }) w :=
  runs_createEvent h

theorem runs_failAndCascade (hr : Stored a row.id w) (ha : row.task.agent = a)
    (hagent : (w.db.agents.get a).isSome = true) :
    Runs S a (PersistBackend.failAndCascade server row) w := by
  refine round_of (Q := Runs S a) hr (fun f hf => Runs.bind runs_issue fun _ => hf)
    (fun w' f hw hf => Runs.bind (runs_buildRedispatch (hr.later hw)) fun assign w'' hw' =>
      hf assign w'' (later_rely (S := S).trans hw hw')) ?_ ?_ ?_
  · intro w' h _
    refine runs_claimAndRecord h (.inr (.inr rfl)) nofun fun won w'' hw => ?_
    cases won with
    | false => exact runs_ret
    | true => exact runs_record (h.later hw)
  · intro w' h _
    refine runs_claimAndRecord h (.inr (.inl rfl)) ?_ fun won w'' hw => ?_
    · rintro kind ⟨⟩
      exact .inr rfl
    cases won with
    | false => exact runs_ret
    | true => exact runs_record (h.later hw)
  · intro assign w' h hw'
    refine runs_claimAndRecord h (.inl rfl) ?_ fun won w'' hw => ?_
    · rintro kind ⟨⟩
      exact .inl rfl
    cases won with
    | false => exact runs_ret
    | true =>
      refine Runs.bind (runs_record (h.later hw)) fun _ w₃ hw₃ => ?_
      rw [ha]
      exact runs_broadcast (hw₃.agent (hw.agent (hw'.agent hagent)))

theorem settles_failAndCascade (hr : Stored a row.id w) :
    Settles S a row.id (PersistBackend.failAndCascade server row) w := by
  refine round_of (Q := Settles S a row.id) hr (fun f hf => Settles.after runs_issue fun _ => hf)
    (fun w' f hw hf => Settles.after (runs_buildRedispatch (hr.later hw)) fun assign w'' hw' =>
      hf assign w'' (later_rely (S := S).trans hw hw')) ?_ ?_ ?_
  · exact fun w' h _ => settles_claimAndRecord h (.inr (.inr rfl)) nofun
  · refine fun w' h _ => settles_claimAndRecord h (.inr (.inl rfl)) ?_
    rintro kind ⟨⟩
    exact .inr rfl
  · refine fun assign w' h _ => settles_claimAndRecord h (.inl rfl) ?_
    rintro kind ⟨⟩
    exact .inl rfl

theorem runs_forEach {rows : List InFlight}
    (hrows : ∀ row ∈ rows, Stored a row.id w ∧ row.task.agent = a)
    (hagent : (w.db.agents.get a).isSome = true) :
    Runs S a (PersistBackend.failAndCascadeInflight server rows) w := by
  induction rows generalizing w with
  | nil => exact runs_ret
  | cons row rows ih =>
    obtain ⟨hr, ha⟩ := hrows row (by simp)
    exact Runs.bind (runs_failAndCascade hr ha hagent) fun _ w' hw =>
      ih (fun row' hrow' => (hrows row' (by simp [hrow'])).imp_left (·.later hw)) (hw.agent hagent)

theorem settles_forEach {rows : List InFlight}
    (hrows : ∀ row ∈ rows, Stored a row.id w ∧ row.task.agent = a)
    (hagent : (w.db.agents.get a).isSome = true) (ht : ∃ row ∈ rows, row.id = t) :
    Settles S a t (PersistBackend.failAndCascadeInflight server rows) w := by
  induction rows generalizing w with
  | nil =>
    obtain ⟨row, hrow, _⟩ := ht
    cases hrow
  | cons row rows ih =>
    obtain ⟨hr, ha⟩ := hrows row (by simp)
    by_cases hid : row.id = t
    · subst hid
      exact Passes.bind_left (settles_failAndCascade hr)
    · refine Settles.after (runs_failAndCascade hr ha hagent) fun _ w' hw =>
        ih (fun row' hrow' => (hrows row' (by simp [hrow'])).imp_left (·.later hw))
          (hw.agent hagent) ?_
      obtain ⟨row', hrow', ht'⟩ := ht
      rcases List.mem_cons.mp hrow' with rfl | hrow'
      · exact absurd ht' hid
      · exact ⟨row', hrow', ht'⟩

end Rounds

/-! ## A registration -/

variable {inquiries : List TaskId} {rest : Handler Unit}

def greet (a : AgentId) (connection : ConnectionId) (inquiries : List TaskId) : Handler Unit :=
  .stmt (.deliver (.send connection (.init a inquiries))) fun _ => .ret ()

/-- What the process that took the lease from another session does before its Init. -/
def takeOver (server : ServerId) (a : AgentId) : Handler Unit :=
  (cancelTimer server .executorGrace a).bind fun _ => PersistBackend.orphanCascade server a

/-- What the process that has claimed the lease of its own session has left. -/
inductive Reclaims (server : ServerId) (a : AgentId) (connection : ConnectionId) :
    Handler Unit → Prop
  | cancels : Reclaims server a connection
      ((cancelTimer server .executorGrace a).bind fun _ =>
        (ask (.inFlight a)).bind fun rows => greet a connection (rows.map (·.id)))
  | reads : Reclaims server a connection
      ((ask (.inFlight a)).bind fun rows => greet a connection (rows.map (·.id)))
  | greets (inquiries : List TaskId) : Reclaims server a connection (greet a connection inquiries)

def refuse (connection : ConnectionId) : Handler Unit :=
  .stmt (.deliver (.send connection (.protocolError
    "Another connection is already registered for this agent. Reconnect with force to take over.")))
    fun _ => .ret ()

def claiming (server : ServerId) (a : AgentId) (connection : ConnectionId)
    (session : Option SessionId) (force : Bool) : Handler Unit :=
  .stmt (.lease (.claim a (some connection) session force)) fun answer =>
    (orDoesNotExist "Agent" answer).bind fun answer =>
      if answer.claimed = true then
        if PersistBackend.isFreshSession answer.priorSession session then
          (takeOver server a).bind fun _ => greet a connection []
        else (cancelTimer server .executorGrace a).bind fun _ =>
          (ask (.inFlight a)).bind fun rows => greet a connection (rows.map (·.id))
      else refuse connection

theorem onRegister_eq : discard (PersistBackend.onRegister server a connection session force) =
    .stmt (.read (.agent a)) fun row => (orDoesNotExist "Agent" row).bind fun row =>
      if row.blocked = true then .ret () else
        .stmt (.getOrCreateCaller ⟨row.client, row.user, row.organization⟩) fun _ =>
          claiming server a connection session force := by
  refine congrArg (Prog.stmt _) (funext fun row => ?_)
  cases row with
  | none => rfl
  | some row =>
    show (if row.blocked = true then _ else _ : Handler (Option PersistBackend.LeaseClaim)).bind _ =
      if row.blocked = true then _ else _
    split
    · rfl
    refine congrArg (Prog.stmt _) (funext fun _ => ?_)
    show ((PersistBackend.onAgentConnected server a (some connection) session force).bind _).bind _ =
      _
    rw [PersistBackend.onAgentConnected_eq]
    refine congrArg (Prog.stmt _) (funext fun answer => ?_)
    cases answer with
    | none => rfl
    | some answer =>
      show (((if answer.claimed = true then _ else _ : Handler PersistBackend.LeaseClaim).bind
        _).bind _ : Handler Unit) = if answer.claimed = true then _ else _
      split
      swap
      · rfl
      unfold PersistBackend.afterClaim takeOver
      split
      · simp only [bind_assoc]
        rfl
      · rfl

/-- What a process has left that has not claimed the lease yet. -/
inductive Before (server : ServerId) (a : AgentId) (connection : ConnectionId)
    (session : Option SessionId) (force : Bool) : Handler Unit → Prop
  | fresh : Before server a connection session force
      (discard (PersistBackend.onRegister server a connection session force))
  | named (identity : AgentIdentity) : Before server a connection session force
      (.stmt (.getOrCreateCaller identity) fun _ => claiming server a connection session force)
  | claims : Before server a connection session force
      (claiming server a connection session force)

/-- The process that took the lease from another session has `X` to do before its Init. -/
structure Takes (S : Settings) (a : AgentId) (connection : ConnectionId) (w : World)
    (rest X : Handler Unit) : Prop where
  rest : rest = X.bind fun _ => greet a connection []
  elsewhere : Prog.Issues (L := Statements) (Elsewhere a) X
  runs : Runs S a X w

theorem Takes.unfinished {X : Handler Unit} (h : Takes S a connection w rest X) :
    rest.next?.isSome = true := by
  rw [h.rest]
  have hruns := h.runs
  cases X with
  | ret x => rfl
  | fail e =>
    obtain ⟨x, hx⟩ := hruns w (later_rely (S := S).refl w)
    cases hx
  | stmt c k => rfl

theorem Reclaims.unfinished (h : Reclaims server a connection rest) : rest.next?.isSome = true := by
  cases h <;> rfl

/-! ## Processes -/

inductive Shape (S : Settings) (a : AgentId) (calls : Nat → Call) (s : State) (p : Nat) : Prop
  | elsewhere (h : Prog.Issues (L := Statements) (Elsewhere a) (s.procs p))
  | before {server : ServerId} {connection : ConnectionId} {session : Option SessionId}
      {force : Bool} (hcall : calls p = .connection (.register server a connection session force))
      (h : Before server a connection session force (s.procs p))
  | reclaims {server : ServerId} {connection : ConnectionId} {session : Option SessionId}
      {force : Bool} (hcall : calls p = .connection (.register server a connection session force))
      (hholder : s.holder = some (p, false)) (hactive : ActiveIs a s.world session)
      (h : Reclaims server a connection (s.procs p))
  | takes {server : ServerId} {connection : ConnectionId} {session : Option SessionId}
      {force : Bool} (hcall : calls p = .connection (.register server a connection session force))
      (hholder : s.holder = some (p, true)) (hactive : ActiveIs a s.world session)
      {X : Handler Unit} (h : Takes S a connection s.world (s.procs p) X)

abbrev Orderly (S : Settings) (a : AgentId) (calls : Nat → Call) (s : State) : Prop :=
  ∀ p, Shape S a calls s p

variable {calls : Nat → Call} {s s' : State} {p q : Nat} {k : Statements.Ans c → Handler Unit}

theorem orderly_begin : Orderly S a calls (State.begin S calls w) := by
  intro p
  by_cases hc : ∃ server connection session force,
      calls p = .connection (.register server a connection session force)
  · obtain ⟨server, connection, session, force, hcall⟩ := hc
    refine .before hcall ?_
    show Before server a connection session force ((calls p).code S)
    rw [hcall]
    exact .fresh
  · exact .elsewhere (call_elsewhere fun server connection session force h =>
      hc ⟨server, connection, session, force, h⟩)

/-- A process that does not move keeps its shape, if it is none that is to greet its session or
nothing happens to that. -/
theorem Shape.keep (h : Shape S a calls s q) (hrest : s'.procs q = s.procs q)
    (hlater : Later a s.world s'.world)
    (hsame : ∀ f, s.holder = some (q, f) → (s.procs q).next?.isSome = true →
      s'.holder = s.holder ∧ ∀ session, ActiveIs a s.world session → ActiveIs a s'.world session) :
    Shape S a calls s' q := by
  cases h with
  | elsewhere h => exact .elsewhere (hrest ▸ h)
  | before hcall h => exact .before hcall (hrest ▸ h)
  | reclaims hcall hholder hactive h =>
    obtain ⟨hsame, hkeeps⟩ := hsame false hholder h.unfinished
    exact .reclaims hcall (hsame.trans hholder) (hkeeps _ hactive) (hrest ▸ h)
  | takes hcall hholder hactive h =>
    obtain ⟨hsame, hkeeps⟩ := hsame true hholder h.unfinished
    exact .takes hcall (hsame.trans hholder) (hkeeps _ hactive)
      ⟨hrest ▸ h.rest, h.elsewhere, h.runs.later later_rely hlater⟩

theorem next_run (hp : s.procs p = .stmt c k) : s.next S a (.run p i) = {
    world := (exec S i c s.world).2
    procs := Function.update s.procs p (k (exec S i c s.world).1)
    holder := if accepts S a i s.world c then
        some (p, claims S a PersistBackend.isFreshSession i s.world c)
      else s.holder } := by
  unfold State.next
  dsimp only
  rw [hp]

theorem later_exec : Later a w (exec S i c w).2 := later_rely.step i c w trivial

@[simp] theorem next_world (hp : s.procs p = .stmt c k) :
    (s.next S a (.run p i)).world = (exec S i c s.world).2 := by rw [next_run hp]

@[simp] theorem next_self (hp : s.procs p = .stmt c k) :
    (s.next S a (.run p i)).procs p = k (exec S i c s.world).1 := by
  rw [next_run hp]
  exact Function.update_self ..

theorem next_other (hp : s.procs p = .stmt c k) (hq : q ≠ p) :
    (s.next S a (.run p i)).procs q = s.procs q := by
  rw [next_run hp]
  exact Function.update_of_ne hq ..

theorem next_holder (hp : s.procs p = .stmt c k) (h : accepts S a i s.world c = false) :
    (s.next S a (.run p i)).holder = s.holder := by
  rw [next_run hp, h]
  rfl

theorem next_claimed (hp : s.procs p = .stmt c k) (h : accepts S a i s.world c = true) :
    (s.next S a (.run p i)).holder =
      some (p, claims S a PersistBackend.isFreshSession i s.world c) := by
  rw [next_run hp, h]
  rfl

theorem crash_self : (s.next S a (.crash p)).procs p = .ret () := Function.update_self ..

theorem crash_other (hq : q ≠ p) : (s.next S a (.crash p)).procs q = s.procs q :=
  Function.update_of_ne hq ..

/-- At its end, a process does nothing. -/
theorem next_ended (hp : (s.procs p).next?.isSome = false) : s.next S a (.run p i) = s := by
  unfold State.next
  dsimp only
  cases hrest : s.procs p with
  | stmt c k =>
    rw [hrest] at hp
    cases hp
  | _ => rfl

/-- What an accepted claim answers, and what it leaves. -/
theorem exec_accepted {connection : Option ConnectionId}
    (h : accepts S a i w (.lease (.claim a connection session force)) = true) :
    ∃ answer : ClaimAnswer,
      (exec S i (.lease (.claim a connection session force)) w).1 = some answer ∧
      answer.claimed = true ∧
      PersistBackend.isFreshSession answer.priorSession session =
        claims S a PersistBackend.isFreshSession i w (.lease (.claim a connection session force)) ∧
      ActiveIs a (exec S i (.lease (.claim a connection session force)) w).2 session := by
  obtain ⟨_, hrow⟩ := Bool.and_eq_true_iff.mp h
  obtain ⟨agent, hagent, hclaimed⟩ := (Option.any_eq_true _ _).mp hrow
  have hclaimed : (agent.toLeaseColumns.claim S i connection session force).1.claimed = true :=
    hclaimed
  have hrow : Lease.leaseOf a w = some agent.toLeaseColumns := by simp [Lease.leaseOf, hagent]
  refine ⟨(agent.toLeaseColumns.claim S i connection session force).1, ?_, hclaimed, ?_, ?_⟩
  · simp only [exec, LeaseStmt.exec, LeaseStmt.target, hagent]
    rfl
  · have hprior : (agent.toLeaseColumns.claim S i connection session force).1.priorSession =
        agent.activeSessionId := by
      unfold LeaseColumns.claim
      split <;> rfl
    rw [hprior]
    simp [claims, hagent, hclaimed]
  · refine ⟨(agent.toLeaseColumns.claim S i connection session force).2, ?_, ?_⟩
    · rw [Lease.leaseOf_lease, hrow]
      exact if_pos rfl
    · rw [(Lease.claim_claimed hclaimed).2]

theorem exec_refused {connection : Option ConnectionId} {answer : ClaimAnswer}
    (h : accepts S a i w (.lease (.claim a connection session force)) = false)
    (hanswer : (exec S i (.lease (.claim a connection session force)) w).1 = some answer) :
    answer.claimed = false := by
  cases hagent : w.db.agents.get a with
  | none =>
    simp only [exec, LeaseStmt.exec, LeaseStmt.target, hagent] at hanswer
    cases hanswer
  | some agent =>
    have hrow : Lease.leaseOf a w = some agent.toLeaseColumns := by simp [Lease.leaseOf, hagent]
    have hclaim : (agent.toLeaseColumns.claim S i connection session force).1 = answer := by
      simp only [exec, LeaseStmt.exec, LeaseStmt.target, hagent] at hanswer
      exact Option.some.inj hanswer
    refine Bool.eq_false_of_not_eq_true fun hclaimed => ?_
    have htrue : accepts S a i w (.lease (.claim a connection session force)) = true :=
      (claims_iff hrow).mpr ⟨rfl, by rw [hclaim]; exact hclaimed⟩
    exact Bool.false_ne_true (h.symm.trans htrue)

theorem there_of_activeIs (h : ActiveIs a w session) : (w.db.agents.get a).isSome = true := by
  obtain ⟨row, hrow, _⟩ := h
  obtain ⟨agent, hagent, _⟩ := Option.map_eq_some_iff.mp hrow
  rw [hagent]
  rfl

/-- The cascade of a take-over returns. -/
theorem takes_takeOver (hagent : (w.db.agents.get a).isSome = true) :
    Takes S a connection w ((takeOver server a).bind fun _ => greet a connection [])
      (takeOver server a) where
  rest := rfl
  elsewhere := Issues.compositional.bind (.issue trivial) fun _ => orphanCascade_elsewhere
  runs := Runs.bind runs_issue fun _ w' hw => by
    intro w'' hw' j
    refine runs_forEach (fun row hrow => ?_) (hw'.agent (hw.agent hagent))
    obtain ⟨hg, ha, _, _⟩ := mem_inFlight.mp hrow
    exact ⟨⟨row.task, hg, ha⟩, ha⟩

/-- And it settles the work of the agent on its way. -/
theorem settles_takeOver (hagent : (w.db.agents.get a).isSome = true) (ht : Stored a t w) :
    Settles S a t (takeOver server a) w := by
  intro w₁ hw₁ _
  refine .inr fun w₂ hw₂ j => ?_
  have hagent₂ : (w₂.db.agents.get a).isSome = true := hw₂.agent (hw₁.agent hagent)
  have hw₂' : Later a w₁ w₂ := ⟨hw₂.evolves, hw₂.agent⟩
  obtain ⟨task, hg, ha⟩ := (ht.later hw₁).later hw₂'
  cases hd : task.isDone with
  | true => exact .inl ⟨task, hg, .inl hd⟩
  | false =>
    refine .inr (settles_forEach (fun row hrow => ?_) hagent₂
      ⟨w₂.db.inFlightRow t task, mem_inFlight.mpr ⟨hg, ha, hd, rfl⟩, rfl⟩)
    obtain ⟨hg, ha, _, _⟩ := mem_inFlight.mp hrow
    exact ⟨⟨row.task, hg, ha⟩, ha⟩

/-! ## Steps -/

theorem Shape.elsewhere_step (h : Prog.Issues (L := Statements) (Elsewhere a) (s.procs p)) :
    Shape S a calls (s.next S a (.run p i)) p := by
  cases hp : s.procs p with
  | stmt c k =>
    rw [hp] at h
    exact .elsewhere (next_self hp ▸ h.2 _)
  | _ =>
    rw [next_ended (by rw [hp]; rfl)]
    exact .elsewhere h

theorem Shape.before_step {force : Bool}
    (hcall : calls p = .connection (.register server a connection session force))
    (h : Before server a connection session force (s.procs p)) :
    Shape S a calls (s.next S a (.run p i)) p := by
  generalize hrest : s.procs p = rest at h
  cases h with
  | fresh =>
    have hself := next_self (S := S) (a := a) (i := i) (hrest.trans onRegister_eq)
    cases hrow : (exec S i (.read (.agent a)) s.world).1 with
    | none =>
      rw [hrow] at hself
      exact .elsewhere (hself ▸ trivial)
    | some row =>
      rw [hrow] at hself
      dsimp only [orDoesNotExist, ret_bind] at hself
      split at hself
      · exact .elsewhere (hself ▸ trivial)
      · exact .before hcall (hself ▸ .named _)
  | named identity => exact .before hcall (next_self hrest ▸ .claims)
  | claims =>
    have hself := next_self (S := S) (a := a) (i := i) hrest
    cases haccepts : accepts S a i s.world (.lease (.claim a (some connection) session force)) with
    | false =>
      refine .elsewhere (hself ▸ ?_)
      cases hanswer : (exec S i (.lease (.claim a (some connection) session force)) s.world).1 with
      | none => trivial
      | some answer =>
        have hrefused := exec_refused haccepts hanswer
        dsimp only [orDoesNotExist, ret_bind]
        rw [hrefused]
        exact ⟨trivial, fun _ => trivial⟩
    | true =>
      obtain ⟨answer, hanswer, hclaimed, hfresh, hactive⟩ := exec_accepted haccepts
      have hholder := next_claimed hrest haccepts
      rw [← hfresh] at hholder
      rw [hanswer] at hself
      dsimp only [orDoesNotExist, ret_bind] at hself
      rw [if_pos hclaimed] at hself
      rw [← next_world (S := S) (a := a) hrest] at hactive
      split at hself
      · rename_i hf
        rw [hf] at hholder
        exact .takes hcall hholder hactive (hself ▸ takes_takeOver (there_of_activeIs hactive))
      · rename_i hf
        rw [Bool.eq_false_of_not_eq_true hf] at hholder
        exact .reclaims hcall hholder hactive (hself ▸ .cancels)

theorem Shape.reclaims_step {force : Bool}
    (hcall : calls p = .connection (.register server a connection session force))
    (hholder : s.holder = some (p, false)) (hactive : ActiveIs a s.world session)
    (h : Reclaims server a connection (s.procs p)) : Shape S a calls (s.next S a (.run p i)) p := by
  generalize hrest : s.procs p = rest at h
  cases h with
  | cancels =>
    have hp : s.procs p = .stmt (.timer (.cancel server .executorGrace a)) fun _ =>
        (ask (.inFlight a)).bind fun rows => greet a connection (rows.map (·.id)) := hrest
    exact .reclaims hcall ((next_holder hp rfl).trans hholder)
      (next_world hp ▸ hactive.exec rfl rfl) (next_self hp ▸ .reads)
  | reads =>
    have hp : s.procs p = .stmt (.read (.inFlight a)) fun rows =>
        greet a connection (rows.map (·.id)) := hrest
    exact .reclaims hcall ((next_holder hp rfl).trans hholder)
      (next_world hp ▸ hactive.exec rfl rfl) (next_self hp ▸ .greets _)
  | greets inquiries => exact .elsewhere (next_self hrest ▸ trivial)

/-- What is left of a take-over after its next statement. -/
theorem Takes.next {X : Handler Unit} (h : Takes S a connection w rest X) :
    (∃ x, X = .ret x ∧ rest = greet a connection []) ∨
      ∃ (c : Stmt) (k : Statements.Ans c → Handler Unit), X = .stmt c k ∧ Elsewhere a c ∧
        (rest = .stmt c fun x => (k x).bind fun _ => greet a connection []) ∧
        ∀ i, Takes S a connection (exec S i c w).2
          ((k (exec S i c w).1).bind fun _ => greet a connection []) (k (exec S i c w).1) := by
  obtain ⟨hrest, helsewhere, hruns⟩ := h
  cases X with
  | ret x => exact .inl ⟨x, rfl, hrest⟩
  | fail e =>
    obtain ⟨x, hx⟩ := hruns w (later_rely (S := S).refl w)
    cases hx
  | stmt c k =>
    exact .inr ⟨c, k, rfl, helsewhere.1, hrest, fun i => ⟨rfl, helsewhere.2 _,
      hruns w (later_rely (S := S).refl w) i⟩⟩

/-- It sends an Init in the end only, and that lists nothing. -/
theorem Takes.of_init {X : Handler Unit} {connection' : ConnectionId}
    (h : Takes S a connection w rest X)
    (hnext : rest.next? = some (.deliver (.send connection' (.init a inquiries)))) :
    inquiries = [] ∧ ∃ x, X = .ret x := by
  rcases h.next with ⟨x, rfl, hgreet⟩ | ⟨c, k, _, helsewhere, hp, _⟩
  · rw [hgreet] at hnext
    cases hnext
    exact ⟨rfl, x, rfl⟩
  · rw [hp] at hnext
    cases hnext
    exact absurd rfl helsewhere

theorem Shape.takes_step {force : Bool} {X : Handler Unit}
    (hcall : calls p = .connection (.register server a connection session force))
    (hholder : s.holder = some (p, true)) (hactive : ActiveIs a s.world session)
    (h : Takes S a connection s.world (s.procs p) X) (hc : Careful S a s (.run p i)) :
    Shape S a calls (s.next S a (.run p i)) p := by
  rcases h.next with ⟨x, rfl, hp⟩ | ⟨c, k, rfl, helsewhere, hp, htakes⟩
  · exact .elsewhere (next_self hp ▸ trivial)
  · have haccepts : accepts S a i s.world c = false := accepts_elsewhere helsewhere
    have hkeeps := (hc c (by rw [hp]; rfl)).keeps
    exact .takes hcall ((next_holder hp haccepts).trans hholder)
      (next_world hp ▸ hactive.exec hkeeps haccepts) (next_world hp ▸ next_self hp ▸ htakes i)

theorem Orderly.step (h : Orderly S a calls s) {m : Move} (hc : Careful S a s m) :
    Orderly S a calls (s.next S a m) := by
  intro q
  cases m with
  | crash p =>
    by_cases hq : q = p
    · subst hq
      exact .elsewhere (crash_self (S := S) (a := a) ▸ trivial)
    · exact (h q).keep (crash_other hq) (later_rely (S := S).refl _)
        fun _ _ _ => ⟨rfl, fun _ => id⟩
  | run p i =>
    cases hrest : s.procs p with
    | stmt c k =>
      by_cases hq : q = p
      · subst hq
        cases h q with
        | elsewhere h => exact Shape.elsewhere_step h
        | before hcall h => exact Shape.before_step hcall h
        | reclaims hcall hholder hactive h => exact Shape.reclaims_step hcall hholder hactive h
        | takes hcall hholder hactive h => exact Shape.takes_step hcall hholder hactive h hc
      · have hcareful := hc c (by rw [hrest]; rfl)
        refine (h q).keep (next_other hrest hq) (next_world hrest ▸ later_exec) fun f hf hon => ?_
        have haccepts : accepts S a i s.world c = false := by
          refine Bool.eq_false_of_not_eq_true fun haccepts => ?_
          have hend := hcareful.alone haccepts (q, f) hf hq
          rw [hend] at hon
          cases hon
        exact ⟨next_holder hrest haccepts, fun session hactive =>
          next_world hrest ▸ hactive.exec hcareful.keeps haccepts⟩
    | _ =>
      rw [next_ended (by rw [hrest]; rfl)]
      exact h q

end Reclaim
end Rekuest
