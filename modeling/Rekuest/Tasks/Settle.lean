import Rekuest.Interleave.Visits
import Rekuest.Tasks.Linked

/-!
# Rekuest.Tasks.Settle

Reconciling the orphaned work of an agent more than once, handlers one at a time.

* `Hits`: the statements behind which a reconciliation of the agent's work lies: the liveness
  check that finds it gone, and the claim of its lease by a fresh session.
* `Requeueable`: some work in flight of the agent can be re-queued.
* `Settled`: every task that was in flight has the outcome that one reconciliation gives it.
* `reconcile_idempotent_iff`: all runs of triggers that reconcile the agent at least once leave the
  same, exactly where none of its work can be re-queued. `reconcile_twice_differs`: a re-queued
  task is downgraded by the next pass.
-/

namespace Rekuest
namespace Settle

open Interleave Interleave.Prog

/-! ## What is observed -/

/-- The kind of a task, whether it is done, and its events. -/
def track (db : Database) (t : TaskId) : Option (TaskEventKind × Bool) × List TaskEvent :=
  ((db.tasks.get t).map fun task => (task.latestEventKind, task.isDone), db.eventsOf t)

/-- What was pushed or posted to the agent. -/
def queueOf (w : World) (a : AgentId) : List (AgentId × ToAgentMessage) :=
  (w.pushed ++ w.posted).filter fun m => m.1 = a

/-- The later worlds agree on the work that was in flight, and on the agent's queue. -/
structure Same (a : AgentId) (w w₁ w₂ : World) : Prop where
  tasks : ∀ t task, InHand a w.db t task → track w₁.db t = track w₂.db t
  queue : queueOf w₁ a = queueOf w₂ a

/-- The liveness check finds the agent gone, or a fresh session claims its lease. -/
def Hits (S : Settings) (a : AgentId) (i : Input) (c : Stmt) (w : World) : Prop :=
  (match c with
  | .read (.agentIsLive b) => b == a && (w.db.agents.get b).any fun row =>
      !Liveness.agentIsLive S i.now row.connected row.lastSeen
  | .lease (.claim b connection session force) => b == a && (w.db.agents.get b).any fun row =>
      let answer := (row.toLeaseColumns.claim S i connection session force).1
      answer.claimed && PersistBackend.isFreshSession answer.priorSession session
  | _ => false) = true

instance (S : Settings) (a : AgentId) (i : Input) (c : Stmt) (w : World) :
    Decidable (Hits S a i c w) :=
  inferInstanceAs (Decidable (_ = true))

/-- Some call of the run reconciles the agent's work. -/
def Reconciled (S : Settings) (a : AgentId) : World → List (ConnectionCall × (Nat → Input)) → Prop
  | _, [] => False
  | w, (c, i) :: calls => Visits (exec S) (Hits S a) (c.code S) i w ∨
      Reconciled S a (runAlone S (c.code S) i w) calls

/-- The claim on a world: however often the agent's work is reconciled, by whatever triggers, it is
as if it had been once. -/
def Idempotent (S : Settings) (a : AgentId) (w : World) : Prop :=
  ∀ calls calls', Reconciled S a w calls → Reconciled S a w calls' →
    Same a w (runAll S (ConnectionCall.code S) w calls) (runAll S (ConnectionCall.code S) w calls')

/-- Some work in flight of the agent is neither physical nor unfit for re-dispatch. -/
def Requeueable (S : Settings) (a : AgentId) (db : Database) (t : TaskId) : Prop :=
  ∃ task, InHand a db t task ∧ db.isPhysical task = false ∧
    (db.actions.get task.action).any (·.idempotent) = true ∧ db.redispatchable S t = true

/-- What one reconciliation makes of a task that cannot be re-queued. -/
def settled (db : Database) (t : TaskId) (task : Task) :
    Option (TaskEventKind × Bool) × List TaskEvent :=
  if db.isPhysical task then
    (some (.critical, true), db.eventsOf t ++
      [{ task := t, kind := .critical, message := some PersistBackend.criticalMessage }])
  else if task.latestEventKind = .disconnected then (some (.disconnected, false), db.eventsOf t)
  else (some (.disconnected, false), db.eventsOf t ++
    [{ task := t, kind := .disconnected, message := some PersistBackend.disconnectedMessage }])

variable {S : Settings} {ok : Input → Stmt → World → Prop} {a b : AgentId} {base w w' : World}
  {t id : TaskId} {kind : TaskEventKind} {message : Option EventText} {now : Time} {db : Database}

theorem track_of_get {task : Task} (hg : db.tasks.get t = some task) :
    track db t = (some (task.latestEventKind, task.isDone), db.eventsOf t) := by
  rw [track, hg]
  rfl

theorem eventsOf_saveTask {u : TaskUpdate} :
    (db.saveTask id u now).eventsOf t = db.eventsOf t := rfl

theorem eventsOf_record {e : TaskEvent} :
    (db.record e).eventsOf t = db.eventsOf t ++ if e.task = t then [e] else [] := eventsOf_append

theorem track_note {task : Task} (hg : db.tasks.get id = some task) :
    track (db.note id kind message now) id = (some (kind, task.isDone), db.eventsOf id ++
      [{ task := id, kind := kind, message := message }]) := by
  have hrow : (db.note id kind message now).tasks.get id =
      some (TaskUpdate.apply { latestEventKind := some kind } now task) :=
    Database.get_saveTask_self.trans (by rw [Database.record_tasks, hg]; rfl)
  rw [track_of_get hrow, Database.note, eventsOf_saveTask, eventsOf_record, if_pos rfl]
  simp [TaskUpdate.apply]

theorem track_finish {task : Task} (hg : db.tasks.get id = some task) :
    track (db.finish id kind message now) id = (some (kind, true), db.eventsOf id ++
      [{ task := id, kind := kind, message := message }]) := by
  rw [track_of_get (Database.get_finish_self hg), Database.finish, eventsOf_saveTask,
    eventsOf_record, if_pos rfl]
  simp [TaskUpdate.apply]

/-- A round leaves what is observed of the other tasks. -/
theorem track_round_of_ne {row : InFlight} (hr : Round S ok row w w') (ht : t ≠ row.id) :
    track w'.db t = track w.db t := by
  unfold track
  rw [hr.get_of_ne ht]
  rcases hr.writes with hdb | ⟨event, u, now, htask, hdb⟩
  · rw [hdb]
  · rw [hdb, eventsOf_saveTask, eventsOf_record, if_neg (by rw [htask]; exact ht.symm),
      List.append_nil]

/-! ## Steady worlds -/

/-- What reconciling may make of the base world: of the work in flight of the agent some is settled
and the rest is untouched, and nothing was put into its queue. -/
structure Steady (a : AgentId) (base w : World) : Prop where
  carries : base.db.Carries w.db
  rows : ∀ t task, InHand a base.db t task →
    track w.db t = track base.db t ∨ track w.db t = settled base.db t task
  queue : queueOf w a = queueOf base a

def Settled (a : AgentId) (base w : World) : Prop :=
  ∀ t task, InHand a base.db t task → track w.db t = settled base.db t task

theorem Steady.refl : Steady a w w := ⟨.refl, fun _ _ _ => .inl rfl, rfl⟩

theorem Steady.same {w₁ w₂ : World} (h₁ : Steady a w w₁) (h₂ : Steady a w w₂)
    (hs₁ : Settled a w w₁) (hs₂ : Settled a w w₂) : Same a w w₁ w₂ where
  tasks t task ht := (hs₁ t task ht).trans (hs₂ t task ht).symm
  queue := h₁.queue.trans h₂.queue.symm

/-- The statement writes no task and delivers nothing to a queue. -/
def Aside : Stmt → Prop
  | .task _ => False
  | .deliver (.push ..) => False
  | .deliver (.post ..) => False
  | _ => True

theorem aside_exec {i : Input} {c : Stmt} (hc : Aside c) :
    w.db.Carries (exec S i c w).2.db ∧ track (exec S i c w).2.db = track w.db ∧
      queueOf (exec S i c w).2 = queueOf w := by
  have hnot : ∀ s, c ≠ .task s := by
    rintro s rfl
    exact hc
  obtain ⟨htasks, hevents⟩ := exec_not_task (S := S) (i := i) (w := w) hnot
  refine ⟨⟨⟨exec_evolves, fun h => ?_, exec_agents_there, fun e he => .inl (hevents ▸ he)⟩,
    exec_callers, exec_memberships⟩, ?_, ?_⟩
  · rw [htasks] at h
    rw [h]
    rfl
  · funext t
    unfold track Database.eventsOf
    rw [htasks, hevents]
  · funext a
    cases c with
    | deliver c =>
      cases c with
      | send connection m => rfl
      | _ => exact hc.elim
    | task s => exact hc.elim
    | timer c => cases c <;> rfl
    | getOrCreateCaller identity =>
      simp only [exec]
      split <;> rfl
    | _ => rfl

theorem Steady.aside {i : Input} {c : Stmt} (hc : Aside c) (h : Steady a base w) :
    Steady a base (exec S i c w).2 := by
  obtain ⟨hcarries, htrack, hqueue⟩ := aside_exec (S := S) (i := i) (w := w) hc
  refine ⟨h.carries.trans hcarries, fun t task ht => ?_, by rw [hqueue, h.queue]⟩
  rw [htrack]
  exact h.rows t task ht

theorem Settled.aside {i : Input} {c : Stmt} (hc : Aside c) (h : Settled a base w) :
    Settled a base (exec S i c w).2 := by
  intro t task ht
  rw [(aside_exec hc).2.1, h t task ht]

theorem Steady.setTimer {server : ServerId} {registry : Registry} {key : Nat} {due : Option Time}
    (h : Steady a base w) : Steady a base (w.setTimer server registry key due) :=
  ⟨h.carries, h.rows, h.queue⟩

/-! ## Cascades -/

/-- A message for another agent. -/
theorem queueOf_delivered {m : ToAgentMessage} (h : b ≠ a) :
    queueOf (w.delivered b m) a = queueOf w a := by
  unfold World.delivered
  split
  · rfl
  split
  · simp [queueOf, h]
  · split
    · simp [queueOf, h]
    · rfl

theorem carries_round {row : InFlight} (hr : Round S ok row w w') (hc : row.Current b w.db) :
    w.db.Carries w'.db := by
  have hsame : w'.db.callers = w.db.callers ∧ w'.db.memberships = w.db.memberships := by
    rcases hr.writes with hdb | ⟨event, u, now, _, hdb⟩
    · rw [hdb]; exact ⟨rfl, rfl⟩
    · rw [hdb]; exact ⟨rfl, rfl⟩
  exact ⟨hr.progresses hc.loaded, fun hk => by rw [hsame.1]; exact hk, hsame.2⟩

/-- A round on a task of another agent. -/
theorem steady_round_of_ne {row : InFlight} (hr : Round S ok row w w')
    (hc : row.Current b w.db) (hb : b ≠ a) (h : Steady a base w) : Steady a base w' where
  carries := h.carries.trans (carries_round hr hc)
  rows t task ht := by
    rw [track_round_of_ne hr (ht.ne_row h.carries.toProgresses hc hb)]
    exact h.rows t task ht
  queue := by
    rw [← h.queue]
    cases hr with
    | requeue i now assign => exact queueOf_delivered (by rw [hc.ofAgent]; exact hb)
    | _ => rfl

/-- A round on a task of the agent settles it. -/
theorem settled_round {row : InFlight} (hlinked : base.db.Linked)
    (hno : ∀ t, ¬ Requeueable S a base.db t) (hr : Round S ok row w w')
    (hc : row.Current a w.db) (h : Steady a base w) {task : Task}
    (ht : InHand a base.db row.id task) :
    track w'.db row.id = settled base.db row.id task ∧ queueOf w' a = queueOf w a := by
  obtain ⟨task', hg', he⟩ := h.carries.tasks ht.stored
  cases hc.loaded.symm.trans hg'
  have hphys : row.physical = base.db.isPhysical task :=
    hc.physical_eq.trans (isPhysical_evolves h.carries.toEvolves he)
  have htrack : track w.db row.id = (some (row.task.latestEventKind, false), w.db.eventsOf row.id) :=
    (track_of_get hc.loaded).trans (by rw [hc.open])
  have hbase : track base.db row.id =
      (some (task.latestEventKind, false), base.db.eventsOf row.id) :=
    (track_of_get ht.stored).trans (by rw [ht.open])
  have hrows := h.rows row.id task ht
  rw [htrack, hbase] at hrows
  unfold settled at hrows ⊢
  cases hr with
  | strike i now hp hok =>
    rw [if_pos (hphys ▸ hp)] at hrows ⊢
    refine ⟨?_, rfl⟩
    rcases hrows with hrows | hrows
    · rw [track_finish hc.loaded, (Prod.mk.inj hrows).2]
    · exact absurd (Prod.mk.inj (Option.some.inj (Prod.mk.inj hrows).1)).2 Bool.false_ne_true
  | requeue i now assign hp hretry hre htask hok =>
    refine absurd ⟨task, ht, by rw [← hphys, hp], ?_, ?_⟩ (hno row.id)
    · have haction : row.action = base.db.actions.get task.action := by
        rw [hc.joined, ← he.action_eq, ← h.carries.actions]
        rfl
      rw [← haction]
      exact (Bool.and_eq_true_iff.mp hretry).1
    · rw [← redispatchable_carries hlinked h.carries (by rw [ht.stored]; rfl), hre]
  | disconnect now hp hno' hkind =>
    rw [if_neg (by rw [← hphys, hp]; exact Bool.false_ne_true)] at hrows ⊢
    refine ⟨?_, rfl⟩
    have hnote : track (w.db.note row.id .disconnected (some PersistBackend.disconnectedMessage)
        now) row.id = _ := track_note hc.loaded
    rw [hc.open] at hnote
    rcases hrows with hrows | hrows
    · obtain ⟨hrow, hevents⟩ := Prod.mk.inj hrows
      have hk : row.task.latestEventKind = task.latestEventKind := by simpa using hrow
      rw [hnote, if_neg (hk ▸ hkind), hevents]
    · split at hrows
      · exact absurd (by simpa using (Prod.mk.inj hrows).1) hkind
      · exact absurd (by simpa using (Prod.mk.inj hrows).1) hkind
  | skip hp hno' hkind =>
    rw [if_neg (by rw [← hphys, hp]; exact Bool.false_ne_true)] at hrows ⊢
    refine ⟨?_, rfl⟩
    rw [htrack]
    rcases hrows with hrows | hrows
    · obtain ⟨hrow, hevents⟩ := Prod.mk.inj hrows
      have hk : row.task.latestEventKind = task.latestEventKind := by simpa using hrow
      rw [if_pos (hk ▸ hkind), hevents, hkind]
    · exact hrows

/-- What a cascade still has before it is all that may be unsettled. -/
structure Midway (a : AgentId) (base : World) (rows : List InFlight) (w : World) : Prop where
  steady : Steady a base w
  rest : ∀ t task, InHand a base.db t task →
    track w.db t = settled base.db t task ∨ ∃ row ∈ rows, row.id = t

theorem midway_start {rank : Nat → Nat} (h : Steady a base w) :
    Midway a base (w.db.inFlight rank a) w := by
  refine ⟨h, fun t task ht => ?_⟩
  obtain ⟨task', hg', he⟩ := h.carries.tasks ht.stored
  cases hd : task'.isDone with
  | false =>
    exact .inr ⟨w.db.inFlightRow t task',
      mem_inFlight.mpr ⟨hg', by rw [← ht.agent, ← he.agent_eq]; rfl, hd, rfl⟩, rfl⟩
  | true =>
    refine .inl ((h.rows t task ht).resolve_left fun hsame => ?_)
    rw [track_of_get hg', track_of_get ht.stored, hd, ht.open] at hsame
    exact absurd (Prod.mk.inj (Option.some.inj (Prod.mk.inj hsame).1)).2.symm Bool.false_ne_true

theorem midway_round {row : InFlight} {rest : List InFlight} (hlinked : base.db.Linked)
    (hno : ∀ t, ¬ Requeueable S a base.db t) (hr : Round S ok row w w')
    (hc : row.Current a w.db) (h : Midway a base (row :: rest) w) : Midway a base rest w' := by
  obtain ⟨task, ht, _⟩ := InHand.of_progresses h.steady.carries.toProgresses hc.loaded hc.ofAgent hc.open
  obtain ⟨hsettled, hqueue⟩ := settled_round hlinked hno hr hc h.steady ht
  refine ⟨⟨h.steady.carries.trans (carries_round hr hc), ?_, by rw [hqueue, h.steady.queue]⟩, ?_⟩
  · intro t task' ht'
    by_cases hne : t = row.id
    · subst hne
      cases ht.stored.symm.trans ht'.stored
      exact .inr hsettled
    · rw [track_round_of_ne hr hne]
      exact h.steady.rows t task' ht'
  · intro t task' ht'
    by_cases hne : t = row.id
    · subst hne
      cases ht.stored.symm.trans ht'.stored
      exact .inl hsettled
    · rw [track_round_of_ne hr hne]
      refine (h.rest t task' ht').imp_right ?_
      rintro ⟨other, hmem, rfl⟩
      exact ⟨other, (List.mem_cons.mp hmem).resolve_left fun heq => hne (heq ▸ rfl), rfl⟩

/-- A cascade keeps steady worlds steady and settled worlds settled, and settles the work of its
own agent. -/
theorem wp_cascade {server : ServerId} (hlinked : base.db.Linked)
    (hno : ∀ t, ¬ Requeueable S a base.db t) (h : Steady a base w) :
    wp (exec S) ok (PersistBackend.orphanCascade server b)
      (fun _ w' => Steady a base w' ∧ (b = a ∨ Settled a base w → Settled a base w')) w := by
  have hagent : ∀ t task, w.db.tasks.get t = some task → task.agent = b →
      (w.db.agents.get b).isSome = true := fun t task hg hb =>
    hb ▸ (h.carries.linked hlinked).agent hg
  by_cases hb : b = a
  · subst hb
    refine PersistBackend.wp_orphanCascade (J := Midway b base) hagent
      (fun i => midway_start h) (fun rows w id hm => ⟨hm.steady.setTimer, hm.rest⟩)
      (fun row rest w w' hcur hm hr =>
        midway_round hlinked hno hr (hcur.row row List.mem_cons_self) hm)
      fun w hm => ⟨hm.steady, fun _ t task ht => (hm.rest t task ht).resolve_right ?_⟩
    rintro ⟨row, hmem, _⟩
    cases hmem
  · refine PersistBackend.wp_orphanCascade
      (J := fun _ w' => Steady a base w' ∧ (Settled a base w → Settled a base w')) hagent
      (fun _ => ⟨h, id⟩) (fun _ w id hm => ⟨hm.1.setTimer, hm.2⟩)
      (fun row rest w w' hcur hm hr => ?_) fun w hm => ⟨hm.1, fun hs => hm.2 (hs.resolve_left hb)⟩
    have hc := hcur.row row List.mem_cons_self
    refine ⟨steady_round_of_ne hr hc hb hm.1, fun hs t task ht => ?_⟩
    rw [track_round_of_ne hr (ht.ne_row hm.1.carries.toProgresses hc hb), hm.2 hs t task ht]

/-! ## Handlers -/

section Handlers

variable (hlinked : base.db.Linked) (hno : ∀ t, ¬ Requeueable S a base.db t)

/-- Where a handler leads: steady worlds stay steady, and it settles them if it reconciles. -/
abbrev Settles (S : Settings) (a : AgentId) (base : World) {α : Type} (p : Handler α) : Prop :=
  Leads (exec S) (Hits S a) (Steady a base) (Settled a base) p

theorem settles_aside {α : Type} {p : Handler α}
    (hp : Prog.Issues (L := Statements) Aside p)
    (hv : ∀ i w, ¬ Visits (exec S) (Hits S a) p i w) : Settles S a base p :=
  .of_keeps (hp.keeps fun _ _ _ hc _ h => h.aside hc)
    (hp.keeps fun _ _ _ hc _ h => ⟨h.1.aside hc, h.2.aside hc⟩) hv

/-- A statement that no reconciliation lies behind. -/
theorem settles_issue {c : Stmt} (hc : Aside c) (hhit : ∀ i (w : World), ¬ Hits S a i c w) :
    Settles S a base (Prog.issue (L := Statements) c) :=
  settles_aside (.issue hc) fun _ _ h => h.elim (hhit _ _) id

include hlinked hno

theorem settles_cascade {server : ServerId} :
    Settles S a base (PersistBackend.orphanCascade server b) := by
  refine .of_keeps (fun w h => wp_mono (fun _ _ h => h.1) (wp_cascade hlinked hno h))
    (fun w h => wp_mono (fun _ _ h' => ⟨h'.1, h'.2 (.inr h.2)⟩) (wp_cascade hlinked hno h.1))
    fun i w => ?_
  refine Issues.not_visits (L := Statements) (P := fun c : Stmt => ∀ i w, ¬ Hits S a i c w)
    (fun i c w h => h i w) ?_
  refine PersistBackend.orphanCascade_built Issues.compositional (.issue fun _ _ h => by cases h)
    fun row => PersistBackend.failAndCascade_issues.mono fun c hc i w h => ?_
  cases c with
  | read q => cases q <;> first | exact hc.elim | cases h
  | lease c => exact hc.elim
  | _ => cases h

/-- The liveness check, and the cascade over an agent that is gone. -/
theorem settles_reconcile {server : ServerId} :
    Settles S a base (PersistBackend.reconcileOrphanedExecutorWork server b) := by
  rw [PersistBackend.reconcileOrphanedExecutorWork_eq]
  refine .stmt (fun _ _ h => h) (fun _ _ _ h => h) (fun live => ?_) fun i w hs h => ?_
  · match live with
    | none => exact Leads.compositional.fail _
    | some true => exact Leads.compositional.ret ()
    | some false => exact settles_cascade hlinked hno
  · obtain ⟨hb, hdead⟩ := Bool.and_eq_true_iff.mp h
    obtain ⟨row, hrow, hnot⟩ := (Option.any_eq_true _ _).mp hdead
    have hans : (exec S i (.read (.agentIsLive b)) w).1 = some false := by
      show (w.db.agents.get b).map _ = _
      rw [hrow, Option.map_some]
      simpa using hnot
    rw [hans]
    exact wp_mono (fun _ _ h => h.2 (.inl (eq_of_beq hb))) (wp_cascade hlinked hno hs)

theorem settles_sweeps : PersistBackend.Sweeps fun _ p => Settles S a base p where
  toCompositional := Leads.compositional
  stale := settles_issue trivial fun _ _ h => by cases h
  orphaned := settles_issue trivial fun _ _ h => by cases h
  lease _ := settles_issue trivial fun _ _ h => by cases h
  timer _ := settles_issue trivial fun _ _ h => by cases h
  revoke _ := settles_issue trivial fun _ _ h => by cases h
  reconcile _ _ := settles_reconcile hlinked hno

/-- An accepted claim by a fresh session is followed by the cascade. -/
theorem settles_onAgentConnected {server : ServerId} {connection : Option ConnectionId}
    {session : Option SessionId} {force : Bool} :
    Settles S a base (PersistBackend.onAgentConnected server b connection session force) := by
  rw [PersistBackend.onAgentConnected_eq, PersistBackend.claimLeaseSync, bind_eq, bind_assoc,
    issue_bind]
  have hrest : ∀ answer : ClaimAnswer, Settles S a base
      (if answer.claimed = true then
        (cancelTimer server .executorGrace b).bind fun _ =>
          PersistBackend.afterClaim server b session answer
      else .ret { claimed := false }) := by
    intro answer
    split
    swap
    · exact Leads.compositional.ret _
    refine Leads.bind (settles_issue trivial fun _ _ h => by cases h) fun _ => ?_
    unfold PersistBackend.afterClaim
    split
    · exact Leads.bind (settles_cascade hlinked hno) fun _ => Leads.compositional.ret _
    · exact Leads.bind (settles_issue trivial fun _ _ h => by cases h) fun _ =>
        Leads.compositional.ret _
  refine .stmt (fun _ _ h => h.aside trivial) (fun _ _ _ h => h.aside trivial)
    (fun answer => ?_) fun i w hs h => ?_
  · exact Leads.bind (orDoesNotExist_built Leads.compositional) hrest
  · obtain ⟨hb, hfresh⟩ := Bool.and_eq_true_iff.mp h
    obtain ⟨row, hrow, hclaim⟩ := (Option.any_eq_true _ _).mp hfresh
    obtain ⟨hclaimed, hsession⟩ := Bool.and_eq_true_iff.mp hclaim
    have hans : (exec S i (.lease (.claim b connection session force)) w).1 =
        some (row.toLeaseColumns.claim S i connection session force).1 := by
      simp only [exec, LeaseStmt.exec, LeaseStmt.target, hrow]
      rfl
    have hs' : Steady a base (exec S i (.lease (.claim b connection session force)) w).2 :=
      hs.aside trivial
    generalize exec S i (.lease (.claim b connection session force)) w = answer at hans hs'
    obtain ⟨answer, w'⟩ := answer
    dsimp only at hans hs' ⊢
    rw [hans]
    show wp _ _ (if _ = true then _ else _) _ _
    rw [if_pos hclaimed]
    refine wp_bind.mpr (wp_cancelTimer ?_)
    show wp _ _ (PersistBackend.afterClaim server b session _) _ _
    rw [PersistBackend.afterClaim, if_pos hsession]
    refine wp_bind.mpr (wp_mono ?_ (wp_cascade hlinked hno hs'.setTimer))
    rintro (e | _) w'' h''
    · exact h''.2 (.inl (eq_of_beq hb))
    · exact h''.2 (.inl (eq_of_beq hb))

theorem settles_onRegister {server : ServerId} {connection : ConnectionId}
    {session : Option SessionId} {force : Bool} :
    Settles S a base (PersistBackend.onRegister server b connection session force) := by
  have hsend : ∀ {m : ToAgentMessage}, Settles S a base (send connection m) :=
    settles_issue trivial fun _ _ h => by cases h
  refine Leads.bind (settles_issue trivial fun _ _ h => by cases h) fun _ =>
    Leads.bind (orDoesNotExist_built Leads.compositional) fun row => ?_
  split
  · exact Leads.compositional.ret none
  refine Leads.bind (settles_issue trivial fun _ _ h => by cases h) fun _ =>
    Leads.bind (settles_onAgentConnected hlinked hno) fun claim => ?_
  split
  · exact Leads.bind hsend fun _ => Leads.compositional.ret none
  · exact Leads.bind hsend fun _ => Leads.compositional.ret _

theorem settles_connectionCall {c : ConnectionCall} : Settles S a base (c.code S) :=
  (settles_sweeps hlinked hno).connectionCall
    (fun _ _ _ _ _ _ => settles_onRegister hlinked hno)
    (fun _ _ _ => settles_issue trivial fun _ _ h => by cases h)
    fun _ _ _ _ => (settles_sweeps hlinked hno).onAgentDisconnected
      (settles_issue trivial fun _ _ h => by cases h)

theorem steady_runAll (calls : List (ConnectionCall × (Nat → Input))) (h : Steady a base w) :
    Steady a base (runAll S (ConnectionCall.code S) w calls) ∧
      (Settled a base w ∨ Reconciled S a w calls →
        Settled a base (runAll S (ConnectionCall.code S) w calls)) := by
  induction calls generalizing w with
  | nil => exact ⟨h, fun hs => hs.resolve_right id⟩
  | cons call calls ih =>
    obtain ⟨c, i⟩ := call
    have hc : Settles S a base (c.code S) := settles_connectionCall hlinked hno
    obtain ⟨hsteady, hsettled⟩ := ih (hc.keeps i w h)
    refine ⟨hsteady, fun hs => hsettled ?_⟩
    rcases hs with hs | hv | hrest
    · exact .inl (hc.stays i w h hs)
    · exact .inl (hc.leads i w h hv)
    · exact .inr hrest

end Handlers

/-! ## Work that can be re-queued -/

/-- What a cascade makes of the kind of a task that can be re-queued. -/
def flip (kind : TaskEventKind) : TaskEventKind :=
  if kind = .queued then .disconnected else .queued

theorem flip_flip_ne : flip (flip kind) ≠ flip kind := by
  unfold flip
  by_cases h : kind = .queued
  · simp [h]
  · simp [h]

theorem Requeueable.carries {task task' : Task} (hlinked : db.Linked) (hc : db.Carries w.db)
    (h : Requeueable S a db t) (hg : db.tasks.get t = some task)
    (hg' : w.db.tasks.get t = some task') (hd : task'.isDone = false) :
    Requeueable S a w.db t := by
  obtain ⟨row, ht, hphys, haction, hre⟩ := h
  cases hg.symm.trans ht.stored
  obtain ⟨task'', hg'', he⟩ := hc.tasks hg
  cases hg'.symm.trans hg''
  refine ⟨task', ⟨hg', by rw [he.agent_eq, ht.agent], hd⟩, ?_, ?_, ?_⟩
  · rw [isPhysical_evolves hc.toEvolves he, hphys]
  · rw [he.action_eq, hc.actions, haction]
  · rw [redispatchable_carries hlinked hc (by rw [hg]; rfl), hre]

/-- A round of a cascade turns a task that can be re-queued, when it comes to it. -/
theorem flip_round {row : InFlight} {task : Task} (hr : Round S ok row w w')
    (hc : row.Current a w.db) (h : Requeueable S a w.db row.id)
    (hg : w.db.tasks.get row.id = some task) :
    ∃ task', w'.db.tasks.get row.id = some task' ∧ task'.isDone = false ∧
      task'.latestEventKind = flip task.latestEventKind := by
  obtain ⟨task', ht, hphys, haction, hre⟩ := h
  cases hg.symm.trans ht.stored
  cases hg.symm.trans hc.loaded
  have hnote : ∀ {kind : TaskEventKind} {message : Option EventText} {now : Time},
      kind = flip row.task.latestEventKind →
      ∃ task', (w.db.note row.id kind message now).tasks.get row.id = some task' ∧
        task'.isDone = false ∧ task'.latestEventKind = flip row.task.latestEventKind := by
    intro kind message now hkind
    refine ⟨_, Database.get_saveTask_self.trans (by rw [Database.record_tasks, hg]; rfl), ?_, hkind⟩
    simp [TaskUpdate.apply, hc.open]
  have hidempotent : row.action.any (·.idempotent) = true := by
    rw [hc.joined]
    exact haction
  have hnot : row.physical = false := hc.physical_eq.trans hphys
  have hretry : row.retryable = false ∨ w.db.redispatchable S row.id = false →
      row.task.latestEventKind = .queued := by
    rintro (h | h)
    · simpa [InFlight.retryable, hidempotent] using h
    · rw [hre] at h; cases h
  cases hr with
  | strike i now hp => rw [hnot] at hp; cases hp
  | requeue i now assign hp hy =>
    have hkind : row.task.latestEventKind ≠ .queued := by
      simpa [InFlight.retryable, hidempotent] using hy
    rw [World.delivered_db]
    exact hnote (by rw [flip, if_neg hkind])
  | disconnect now hp hno => exact hnote (by rw [flip, if_pos (hretry hno)])
  | skip hp hno hkind => rw [hretry hno] at hkind; cases hkind

/-- A cascade turns every task that can be re-queued. -/
theorem wp_flip {server : ServerId} {task : Task} (hlinked : w.db.Linked)
    (h : Requeueable S a w.db t) (hg : w.db.tasks.get t = some task) :
    wp (exec S) ok (PersistBackend.orphanCascade server a)
      (fun _ w' => w.db.Carries w'.db ∧ ∃ task', w'.db.tasks.get t = some task' ∧
        task'.isDone = false ∧ task'.latestEventKind = flip task.latestEventKind) w := by
  obtain ⟨row, ht, _⟩ := id h
  cases hg.symm.trans ht.stored
  refine PersistBackend.wp_orphanCascade (J := fun rows w' => w.db.Carries w'.db ∧
    ∃ task', w'.db.tasks.get t = some task' ∧ task'.isDone = false ∧
      ((∃ row ∈ rows, row.id = t) ∧ task'.latestEventKind = task.latestEventKind ∨
        (∀ row ∈ rows, row.id ≠ t) ∧ task'.latestEventKind = flip task.latestEventKind))
    (fun t task hg ha => ha ▸ hlinked.agent hg) (fun i => ⟨.refl, task, hg, ht.open, .inl ⟨?_, rfl⟩⟩)
    (fun rows w id hm => hm) (fun row rest w₁ w₂ hcur hm hr => ?_) fun w' hm => ?_
  · exact ⟨w.db.inFlightRow t task, mem_inFlight.mpr ⟨hg, ht.agent, ht.open, rfl⟩, rfl⟩
  · obtain ⟨hcarries, task₁, hg₁, hd₁, hkind⟩ := hm
    have hc := hcur.row row List.mem_cons_self
    refine ⟨hcarries.trans (carries_round hr hc), ?_⟩
    by_cases hne : t = row.id
    · subst hne
      have hkind₁ : task₁.latestEventKind = task.latestEventKind :=
        (hkind.resolve_right fun h => h.1 row List.mem_cons_self rfl).2
      obtain ⟨task₂, hg₂, hd₂, hkind₂⟩ :=
        flip_round hr hc (h.carries hlinked hcarries hg hg₁ hd₁) hg₁
      refine ⟨task₂, hg₂, hd₂, .inr ⟨fun other hmem heq => ?_, by rw [hkind₂, hkind₁]⟩⟩
      exact (List.nodup_cons.mp hcur.nodup).1 (List.mem_map.mpr ⟨other, hmem, heq⟩)
    · refine ⟨task₁, by rw [hr.get_of_ne hne, hg₁], hd₁, hkind.imp (And.imp_left ?_)
        (And.imp_left fun h other hmem => h other (List.mem_cons_of_mem _ hmem))⟩
      rintro ⟨other, hmem, rfl⟩
      exact ⟨other, (List.mem_cons.mp hmem).resolve_left fun heq => hne (heq ▸ rfl), rfl⟩
  · obtain ⟨hcarries, task', hg', hd', hkind⟩ := hm
    exact ⟨hcarries, task', hg', hd', (hkind.resolve_left fun h => by
      obtain ⟨row, hmem, _⟩ := h.1
      cases hmem).2⟩

/-- A clock reading by which the agent's heartbeat is stale. -/
theorem exists_gone {agent : Agent} : ∃ now : Time,
    Liveness.agentIsLive S now agent.connected agent.lastSeen = false := by
  cases hseen : agent.lastSeen with
  | none => exact ⟨0, rfl⟩
  | some seen =>
    refine ⟨seen + S.staleAfterSeconds, ?_⟩
    simp [Liveness.agentIsLive]

/-- The grace timer fires when the agent is gone. -/
theorem exists_flip {task : Task} (hlinked : w.db.Linked) (h : Requeueable S a w.db t)
    (hg : w.db.tasks.get t = some task) :
    ∃ i : Nat → Input, Reconciled S a w [(.graceExpired 0 a, i)] ∧
      w.db.Carries (runAlone S ((ConnectionCall.graceExpired 0 a).code S) i w).db ∧
      ∃ task', (runAlone S ((ConnectionCall.graceExpired 0 a).code S) i w).db.tasks.get t =
        some task' ∧ task'.isDone = false ∧
        task'.latestEventKind = flip task.latestEventKind := by
  obtain ⟨row, ht, _⟩ := id h
  cases hg.symm.trans ht.stored
  obtain ⟨agent, hagent⟩ := Option.isSome_iff_exists.mp (hlinked.agent hg)
  rw [ht.agent] at hagent
  obtain ⟨now, hgone⟩ : ∃ now : Time,
      Liveness.agentIsLive S now agent.connected agent.lastSeen = false := exists_gone
  have hans : (exec S { now := now } (.read (.agentIsLive a)) w).1 = some false := by
    show (w.db.agents.get a).map _ = _
    rw [hagent, Option.map_some, hgone]
  refine ⟨fun _ => { now := now }, .inl ?_, ?_⟩
  · show Visits _ _ (PersistBackend.reconcileOrphanedExecutorWork 0 a) _ _
    rw [PersistBackend.reconcileOrphanedExecutorWork_eq]
    refine .inl ?_
    simp [Hits, hagent, hgone]
  · show w.db.Carries (runAlone S (PersistBackend.reconcileOrphanedExecutorWork 0 a) _ w).db ∧ _
    unfold runAlone ConnectionCall.code
    dsimp only
    rw [PersistBackend.reconcileOrphanedExecutorWork_eq, run_stmt, hans]
    exact wp_run (wp_flip hlinked h hg) meets_any

/-- **Reconciling is idempotent** exactly where no work in flight can be re-queued. -/
theorem reconcile_idempotent_iff (S : Settings) (a : AgentId) (w : World) (hw : w.db.Linked) :
    Idempotent S a w ↔ ∀ t, ¬ Requeueable S a w.db t := by
  refine ⟨fun hid t h => ?_, fun hno calls calls' hc hc' => ?_⟩
  · obtain ⟨task, ht, _⟩ := id h
    obtain ⟨i, hrec, hcarries, task₁, hg₁, hd₁, hkind₁⟩ := exists_flip hw h ht.stored
    obtain ⟨j, _, _, task₂, hg₂, _, hkind₂⟩ := exists_flip (hcarries.linked hw)
      (h.carries hw hcarries ht.stored hg₁ hd₁) hg₁
    have hsame := (hid [(.graceExpired 0 a, i)] [(.graceExpired 0 a, i), (.graceExpired 0 a, j)]
      hrec (.inl (hrec.resolve_right id))).tasks t task ht
    have hrow := (Prod.mk.inj hsame).1
    simp only [runAll, List.foldl_cons, List.foldl_nil, hg₁, hg₂, Option.map_some,
      Option.some.injEq, Prod.mk.injEq] at hrow
    rw [hkind₂, hkind₁] at hrow
    exact flip_flip_ne hrow.1.symm
  · obtain ⟨hsteady, hsettled⟩ := steady_runAll hw hno calls .refl
    obtain ⟨hsteady', hsettled'⟩ := steady_runAll hw hno calls' .refl
    exact hsteady.same hsteady' (hsettled (.inr hc)) (hsettled' (.inr hc'))

section Downgraded

theorem reconcile_idempotent_unretried : Idempotent {} 1 (orphanWorld false) := by
  refine (reconcile_idempotent_iff {} 1 (orphanWorld false) linked_orphanWorld).mpr ?_
  rintro t ⟨task, ht, _, haction, _⟩
  rcases Table.get_insert_cases ht.stored with ⟨_, rfl⟩ | ⟨_, hnone⟩
  · cases haction
  · cases hnone

/-- The first pass re-queues the task, the second one reports it disconnected. -/
theorem reconcile_twice_differs : ¬ Idempotent {} 1 (orphanWorld true) := by
  intro h
  let once : List (ConnectionCall × (Nat → Input)) := [(.graceExpired 0 1, fun _ => {})]
  have hfirst : Visits (exec {}) (Hits {} 1) ((ConnectionCall.graceExpired 0 1).code {})
      (fun _ => {}) (orphanWorld true) := by decide +kernel
  have hsame := (h once (once ++ once) (.inl hfirst) (.inl hfirst)).tasks 1 _ ⟨rfl, rfl, rfl⟩
  have honce : (track (runAll {} (ConnectionCall.code {}) (orphanWorld true) once).db 1).1 =
      some (.queued, false) := by decide +kernel
  have htwice : (track (runAll {} (ConnectionCall.code {}) (orphanWorld true) (once ++ once)).db 1).1 =
      some (.disconnected, false) := by decide +kernel
  rw [hsame, htwice] at honce
  cases honce

end Downgraded

end Settle
end Rekuest
