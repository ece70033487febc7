import Rekuest.Tasks.Linked

/-!
# Rekuest.Tasks.Requeue

A cascade that is cut off, by a crash or a cancellation, after it has re-queued a task, and the
next complete cascade.

* `QueuedAt`: the task is marked as re-queued. `Redelivered`: it has one more QUEUED event, and one
  more Assign of it was handed out.
* `Handover`: however a program is cut off after it marked the task, it has redelivered it exactly
  if three more statements were run.
* `requeued_in_queue_iff`: what the cut-off cascade has not redelivered, the next does not either.
  `cut_before_event_never_redelivered`: a crash right after the claim.
-/

namespace Rekuest
namespace Requeue

open Interleave Interleave.Prog

/-! ## What is observed -/

/-- The task is marked as re-queued. -/
def QueuedAt (t : TaskId) (w : World) : Prop :=
  ((w.db.tasks.get t).any fun task => task.latestEventKind == .queued) = true

instance (t : TaskId) (w : World) : Decidable (QueuedAt t w) := inferInstanceAs (Decidable (_ = true))

def queuedEvents (t : TaskId) (db : Database) : Nat :=
  (db.eventsOf t).countP fun e => e.kind == .queued

def isAssignOf (t : TaskId) (m : AgentId × ToAgentMessage) : Bool :=
  match m.2 with
  | .assign m => m.task == t
  | _ => false

/-- How often an Assign of the task was pushed or posted. -/
def handed (t : TaskId) (w : World) : Nat :=
  w.pushed.countP (isAssignOf t) + w.posted.countP (isAssignOf t)

/-- A QUEUED event of the task was recorded, and an Assign of it handed out. -/
def Redelivered (t : TaskId) (w w' : World) : Prop :=
  queuedEvents t w.db < queuedEvents t w'.db ∧ handed t w < handed t w'

instance (t : TaskId) (w w' : World) : Decidable (Redelivered t w w') :=
  inferInstanceAs (Decidable (_ ∧ _))

/-- A message for the agent goes somewhere: into a queue, or to a URL. -/
def addressable (a : AgentId) (w : World) : Bool :=
  (w.db.agents.get a).any fun row => row.kind == .websocket || row.hookUrl.any (· != "")

/-- Everything of a world that matters here. -/
def sight (t : TaskId) (w : World) : Option Task × Nat × Nat :=
  (w.db.tasks.get t, queuedEvents t w.db, handed t w)

variable {S : Settings} {ok : Input → Stmt → World → Prop} {a : AgentId} {base w w' : World}
  {t : TaskId} {α β : Type}

theorem queuedAt_congr (h : sight t w = sight t w') : QueuedAt t w ↔ QueuedAt t w' := by
  unfold QueuedAt
  rw [(Prod.mk.inj h).1]

theorem redelivered_congr (h : sight t w = sight t w') :
    Redelivered t base w ↔ Redelivered t base w' := by
  unfold Redelivered
  rw [(Prod.mk.inj (Prod.mk.inj h).2).1, (Prod.mk.inj (Prod.mk.inj h).2).2]

/-! ## Statements that leave the task alone -/

/-- The message hands out no Assign of the task. -/
def Mute (t : TaskId) : ToAgentMessage → Prop
  | .assign m => m.task ≠ t
  | _ => True

/-- The statement neither writes the task nor hands it out. -/
def Spares (t : TaskId) (c : Stmt) : Prop :=
  c.writesOn ≠ some t ∧ match c with
    | .deliver c => Mute t c.message
    | _ => True

/-- And it leaves the agents alone. -/
def Idle (t : TaskId) (c : Stmt) : Prop :=
  Spares t c ∧ match c with
    | .lease _ => False
    | .agent _ => False
    | .task (.create _) => False
    | _ => True

theorem mute_iff {m : ToAgentMessage} {b : AgentId} : Mute t m ↔ isAssignOf t (b, m) = false := by
  cases m with
  | assign m => simp [Mute, isAssignOf]
  | _ => simp [Mute, isAssignOf]

theorem handed_deliver {c : DeliverStmt} (h : Mute t c.message) : handed t (c.exec w) = handed t w := by
  unfold handed
  cases c with
  | push b m =>
    simp only [DeliverStmt.exec, List.countP_append, List.countP_singleton]
    rw [show isAssignOf t (b, m) = false from mute_iff.mp h]
    rfl
  | post b m =>
    simp only [DeliverStmt.exec, List.countP_append, List.countP_singleton]
    rw [show isAssignOf t (b, m) = false from mute_iff.mp h]
    rfl
  | send connection m => rfl

theorem queuedEvents_record {db : Database} {e : TaskEvent} :
    queuedEvents t (db.record e) =
      queuedEvents t db + if e.task = t ∧ e.kind = .queued then 1 else 0 := by
  unfold queuedEvents Database.record
  rw [eventsOf_append, List.countP_append]
  congr 1
  by_cases ht : e.task = t <;> by_cases hk : e.kind = .queued <;> simp [ht, hk]

theorem handed_of_eq (hpushed : w'.pushed = w.pushed) (hposted : w'.posted = w.posted) :
    handed t w' = handed t w := by
  unfold handed
  rw [hpushed, hposted]

theorem queuedEvents_of_eq {db db' : Database} (h : db'.events = db.events) :
    queuedEvents t db' = queuedEvents t db := by
  unfold queuedEvents Database.eventsOf
  rw [h]

theorem exec_queues {i : Input} {c : Stmt} (h : ∀ d, c ≠ .deliver d) :
    (exec S i c w).2.pushed = w.pushed ∧ (exec S i c w).2.posted = w.posted := by
  cases c with
  | deliver d => exact absurd rfl (h d)
  | timer c => cases c <;> exact ⟨rfl, rfl⟩
  | getOrCreateCaller identity =>
    simp only [exec]
    split <;> exact ⟨rfl, rfl⟩
  | _ => exact ⟨rfl, rfl⟩

theorem sight_spares {i : Input} {c : Stmt} (hc : Spares t c)
    (hthere : (w.db.tasks.get t).isSome = true) : sight t (exec S i c w).2 = sight t w := by
  obtain ⟨task, hg⟩ := Option.isSome_iff_exists.mp hthere
  obtain ⟨hwrites, hmute⟩ := hc
  have hrow : (exec S i c w).2.db.tasks.get t = w.db.tasks.get t := by
    rw [(exec_aside hwrites hg).1, hg]
  have hevents : queuedEvents t (exec S i c w).2.db = queuedEvents t w.db := by
    by_cases htask : ∃ s, c = .task s
    · obtain ⟨s, rfl⟩ := htask
      rw [exec_task_db]
      cases s with
      | create row =>
        refine queuedEvents_of_eq ?_
        simp only [TaskStmt.exec]
        split <;> rfl
      | createEvent event =>
        have hne : ¬ (event.task = t ∧ event.kind = .queued) := fun h =>
          hwrites (congrArg some h.1)
        rw [createEvent_exec]
        split
        · show queuedEvents t (w.db.record event) = _
          rw [queuedEvents_record, if_neg hne, Nat.add_zero]
        · rfl
      | save id u => exact queuedEvents_of_eq save_events
      | claimTransition id kind markDone skip => exact queuedEvents_of_eq claimTransition_events
    · exact queuedEvents_of_eq (exec_not_task fun s hs => htask ⟨s, hs⟩).2
  have hhanded : handed t (exec S i c w).2 = handed t w := by
    by_cases hd : ∃ d, c = .deliver d
    · obtain ⟨d, rfl⟩ := hd
      exact handed_deliver hmute
    · obtain ⟨hpushed, hposted⟩ := exec_queues (S := S) (i := i) (w := w) fun d h => hd ⟨d, h⟩
      exact handed_of_eq hpushed hposted
  unfold sight
  rw [hrow, hevents, hhanded]

theorem agents_idle {i : Input} {c : Stmt} (hc : Idle t c) :
    (exec S i c w).2.db.agents = w.db.agents := by
  cases c with
  | read q => rfl
  | lease c => exact hc.2.elim
  | agent c => exact hc.2.elim
  | getOrCreateCaller identity => exact exec_getOrCreateCaller_agents
  | task c => exact exec_task_agents
  | state c => exact exec_state_agents
  | deliver c => rw [exec_deliver_db]
  | timer c => rw [exec_timer_db]

/-! ## Cut-off programs -/

/-- The world as far as the hand-over of the task is concerned is still the base world. -/
structure Before (t : TaskId) (base w : World) : Prop where
  sight : sight t w = sight t base
  agents : w.db.agents = base.db.agents

/-- The task is there and open, and not marked as re-queued. -/
structure Pending (t : TaskId) (w : World) (task : Task) : Prop where
  stored : w.db.tasks.get t = some task
  «open» : task.isDone = false
  kind : task.latestEventKind ≠ .queued

theorem Pending.not_queuedAt {task : Task} (h : Pending t base task) (hb : Before t base w) :
    ¬ QueuedAt t w := by
  rw [queuedAt_congr hb.sight]
  unfold QueuedAt
  simp [h.stored, h.kind]

theorem Pending.before {task : Task} (h : Pending t base task) (hb : Before t base w) :
    Pending t w task :=
  ⟨by rw [(Prod.mk.inj hb.sight).1, h.stored], h.open, h.kind⟩

theorem Before.idle {i : Input} {c : Stmt} {task : Task} (hp : Pending t base task)
    (h : Before t base w) (hc : Idle t c) : Before t base (exec S i c w).2 where
  sight := by
    rw [sight_spares hc.1 (by rw [(hp.before h).stored]; rfl), h.sight]
  agents := by rw [agents_idle hc, h.agents]

/-- However the program is cut off after it marked the task: it has redelivered it exactly if the
agent is addressable and the task was marked three statements before. -/
def Handover (S : Settings) (t : TaskId) (a : AgentId) (base : World) (p : Handler α) (w : World) :
    Prop :=
  ∀ i n, QueuedAt t (upTo (exec S) n p i w) →
    (Redelivered t base (upTo (exec S) n p i w) ↔
      addressable a base = true ∧ QueuedAt t (upTo (exec S) (n - 3) p i w))

/-- A program that never marks the task. -/
theorem handover_of_never {p : Handler α} (h : ∀ i n, ¬ QueuedAt t (upTo (exec S) n p i w)) :
    Handover S t a base p w :=
  fun i n hq => absurd hq (h i n)

section

variable {task : Task} (hp : Pending t base task)
include hp

theorem handover_ret {x : α} (hb : Before t base w) : Handover S t a base (.ret x) w := by
  refine handover_of_never fun i n => ?_
  rw [upTo_ret]
  exact hp.not_queuedAt hb

theorem handover_stmt {c : Stmt} {k : c.Ans → Handler α} (hb : Before t base w)
    (hc : Idle t c) (hk : ∀ i, Handover S t a base (k (exec S i c w).1) (exec S i c w).2) :
    Handover S t a base (.stmt (L := Statements) c k) w := by
  intro i n hq
  cases n with
  | zero =>
    rw [upTo_zero] at hq
    exact absurd hq (hp.not_queuedAt hb)
  | succ n =>
    have hnext := hk (i 0) (fun m => i (m + 1)) n hq
    refine hnext.trans (and_congr_right fun _ => ?_)
    by_cases hn : 3 ≤ n
    · rw [show n + 1 - 3 = n - 3 + 1 by omega, upTo_stmt]
    · rw [show n - 3 = 0 by omega, show n + 1 - 3 = 0 by omega, upTo_zero, upTo_zero]
      exact iff_of_false (hp.not_queuedAt (hb.idle hp hc)) (hp.not_queuedAt hb)

/-- What comes before it does not touch the task. -/
theorem handover_bind {p : Handler α} {f : α → Handler β} (hb : Before t base w)
    (hi : Prog.Issues (L := Statements) (Idle t) p)
    (hf : ∀ x w', Before t base w' → Handover S t a base (f x) w') :
    Handover S t a base (p.bind f) w := by
  induction p generalizing w with
  | ret x => exact hf x w hb
  | fail e =>
    refine handover_of_never fun i n => ?_
    rw [fail_bind, upTo_fail]
    exact hp.not_queuedAt hb
  | stmt c k ih =>
    exact handover_stmt hp hb hi.1 fun i => ih _ (hb.idle hp hi.1) (hi.2 _)

end

/-- What comes after it does not touch the task either. -/
theorem sight_upTo_bind {p : Handler α} {f : α → Handler β}
    (hthere : (w.db.tasks.get t).isSome = true)
    (hf : ∀ x, Prog.Issues (L := Statements) (Idle t) (f x)) {i : Nat → Input} {n : Nat} :
    sight t (upTo (exec S) n (p.bind f) i w) = sight t (upTo (exec S) n p i w) := by
  induction p generalizing i n w with
  | ret x =>
    rw [ret_bind, upTo_ret]
    refine upTo_inv (exec S) i w (I := fun w' => sight t w' = sight t w) ?_ (hf x) n rfl
    intro j c w' hc hw'
    refine (sight_spares hc.1 ?_).trans hw'
    rw [(Prod.mk.inj hw').1, hthere]
  | fail e => rw [fail_bind]; rw [upTo_fail, upTo_fail]
  | stmt c k ih =>
    cases n with
    | zero => rw [upTo_zero, upTo_zero]
    | succ n =>
      obtain ⟨task, hg⟩ := Option.isSome_iff_exists.mp hthere
      obtain ⟨task', hg', _⟩ := evolves_exec (S := S) (i := i 0) (c := c) hg
      exact ih _ (by rw [hg']; rfl)

theorem handover_bind_idle {p : Handler α} {f : α → Handler β}
    (hthere : (w.db.tasks.get t).isSome = true) (h : Handover S t a base p w)
    (hf : ∀ x, Prog.Issues (L := Statements) (Idle t) (f x)) :
    Handover S t a base (p.bind f) w := by
  intro i n hq
  rw [queuedAt_congr (sight_upTo_bind hthere hf)] at hq
  rw [redelivered_congr (sight_upTo_bind hthere hf), queuedAt_congr (sight_upTo_bind hthere hf)]
  exact h i n hq

/-! ## The cascade -/

open PersistBackend

/-- The statement marks no task as re-queued. -/
def MarksNone : Stmt → Prop
  | .task (.claimTransition _ kind _ _) => kind ≠ .queued
  | .task (.save ..) => False
  | .task (.create _) => False
  | _ => True

theorem not_queuedAt_exec {i : Input} {c : Stmt} (hc : MarksNone c) (h : ¬ QueuedAt t w) :
    ¬ QueuedAt t (exec S i c w).2 := by
  unfold QueuedAt at h ⊢
  by_cases htask : ∃ s, c = .task s
  · obtain ⟨s, rfl⟩ := htask
    rw [exec_task_db]
    cases s with
    | create row => exact hc.elim
    | createEvent event => rwa [createEvent_tasks]
    | save id u => exact hc.elim
    | claimTransition id kind markDone skip =>
      rw [get_claimTransition]
      split
      · cases hg : w.db.tasks.get t with
        | none => simp
        | some task =>
          rw [hg] at h
          rw [Option.map_some]
          unfold Task.claimTransition
          split
          · exact h
          · simpa [TaskUpdate.apply] using show kind ≠ .queued from hc
      · exact h
  · rwa [(exec_not_task fun s hs => htask ⟨s, hs⟩).1]

theorem claimAndRecord_marksNone {id : TaskId} {kind : TaskEventKind} {markDone : Bool}
    {skip : Option TaskEventKind} {event : TaskEvent} (hkind : kind ≠ .queued) :
    Prog.Issues (L := Statements) MarksNone
      ((claimTaskTransitionSync id kind markDone skip).bind fun won =>
        if won = true then createEvent event else .ret ()) :=
  claimAndRecord_issues hkind trivial (createEvent_built Issues.compositional (.issue trivial))

/-- A branch of the cascade that does not re-queue. -/
theorem handover_marksNone {p : Handler α} {task : Task} (hp : Pending t base task)
    (hb : Before t base w) (h : Prog.Issues (L := Statements) MarksNone p) :
    Handover S t a base p w :=
  handover_of_never fun i n => upTo_inv (exec S) i w (I := fun w => ¬ QueuedAt t w)
    (fun _ _ _ hc hw => not_queuedAt_exec hc hw) h n (hp.not_queuedAt hb)

/-- A round on another task. -/
theorem failAndCascade_idle {server : ServerId} {row : InFlight} (hne : row.id ≠ t) :
    Prog.Issues (L := Statements) (Idle t) (failAndCascade server row) := by
  have hid : some row.id ≠ some t := fun h => hne (Option.some.inj h)
  have hread : ∀ {q : Query}, Idle t (.read q) := ⟨⟨nofun, trivial⟩, trivial⟩
  have hclaim : ∀ {kind : TaskEventKind} {markDone : Bool} {skip : Option TaskEventKind}
      {f : Bool → Handler Unit}, Prog.Issues (L := Statements) (Idle t) (f false) →
      Prog.Issues (L := Statements) (Idle t) (f true) → Prog.Issues (L := Statements) (Idle t)
        ((claimTaskTransitionSync row.id kind markDone skip).bind f) :=
    claimAndRecord_issues ⟨⟨hid, trivial⟩, trivial⟩
  have hevent : ∀ {kind : TaskEventKind} {message : Option EventText},
      Prog.Issues (L := Statements) (Idle t)
        (createEvent { task := row.id, kind := kind, message := message }) :=
    createEvent_built Issues.compositional (.issue ⟨⟨hid, trivial⟩, trivial⟩)
  refine failAndCascade_built Issues.compositional (.issue ⟨⟨nofun, trivial⟩, trivial⟩)
    (.issue hread) (fun _ => .issue hread) (hclaim trivial hevent) (hclaim trivial hevent)
    fun assign hassign => hclaim trivial (Issues.compositional.bind hevent fun _ => ?_)
  have hmute : assign.task ≠ t := hassign ▸ hne
  exact broadcast_built Issues.compositional (.issue hread)
    (.issue ⟨⟨nofun, hmute⟩, trivial⟩) (.issue ⟨⟨nofun, hmute⟩, trivial⟩)

/-- The broadcast, cut off: the message is out after two statements. -/
theorem upTo_broadcast {m : ToAgentMessage} {n : Nat} {i : Nat → Input} :
    upTo (exec S) n (broadcast a m) i w = if 2 ≤ n then w.delivered a m else w := by
  cases n with
  | zero => exact upTo_zero _ _ _ _
  | succ n =>
    show upTo (exec S) n ((orDoesNotExist "Agent" (w.db.agents.get a)).bind _) _ w = _
    unfold World.delivered
    cases w.db.agents.get a with
    | none =>
      show upTo (exec S) n (.fail _) _ w = _
      rw [upTo_fail]
      split <;> rfl
    | some row =>
      dsimp only [orDoesNotExist, ret_bind, pure_eq]
      cases row.kind with
      | websocket =>
        cases n with
        | zero => exact upTo_zero _ _ _ _
        | succ n =>
          rw [if_pos (Nat.le_add_left 2 n)]
          exact upTo_ret _ _ _ _ _
      | webhook =>
        dsimp only
        split
        · cases n with
          | zero => exact upTo_zero _ _ _ _
          | succ n =>
            rw [if_pos (Nat.le_add_left 2 n)]
            exact upTo_ret _ _ _ _ _
        · rw [upTo_ret]
          split <;> rfl

/-- The claim, the event and the broadcast, cut off. -/
theorem upTo_requeueTask {assign : Assign} {task : Task} {n : Nat} {i : Nat → Input}
    (hp : Pending t w task) :
    upTo (exec S) (n + 1) (requeueTask t a assign) i w =
      match n with
      | 0 => { w with db := w.db.saveTask t { latestEventKind := some .queued } (i 0).now }
      | n + 1 => if 2 ≤ n then
          World.delivered { w with
            db := w.db.note t .queued (some queuedMessage) (i 0).now } a (.assign assign)
        else { w with db := w.db.note t .queued (some queuedMessage) (i 0).now } := by
  have hclaim : exec S (i 0) (.task (.claimTransition t .queued false (some .queued))) w =
      (some true, { w with
        db := w.db.saveTask t { latestEventKind := some .queued } (i 0).now }) := by
    simp only [exec]
    rw [claimTransition_exec_won hp.stored hp.open
      fun h => hp.kind (Option.some.inj h).symm]
  show upTo (exec S) n (Prog.bind (Prog.bind (.ret
    (exec S (i 0) (.task (.claimTransition t .queued false (some .queued))) w).1) _) _) _
    (exec S (i 0) (.task (.claimTransition t .queued false (some .queued))) w).2 = _
  rw [hclaim]
  show upTo (exec S) n ((createEvent { task := t, kind := .queued
                                       message := some queuedMessage }).bind fun _ =>
    broadcast a (.assign assign)) _ _ = _
  cases n with
  | zero => exact upTo_zero _ _ _ _
  | succ n =>
    have hthere :
        ((w.db.saveTask t { latestEventKind := some .queued } (i 0).now).tasks.get t).isSome =
          true := by
      rw [Database.get_saveTask_self, hp.stored]
      rfl
    show upTo (exec S) n (Prog.bind (Prog.bind (.ret (exec S (i 1) (.task (.createEvent _)) _).1) _)
      _) _ (exec S (i 1) (.task (.createEvent _)) _).2 = _
    rw [exec_createEvent hthere]
    exact upTo_broadcast

theorem handed_delivered {assign : Assign} (htask : assign.task = t) :
    handed t (w.delivered a (.assign assign)) =
      handed t w + if addressable a w = true then 1 else 0 := by
  have hmine : isAssignOf t (a, .assign assign) = true := by simp [isAssignOf, htask]
  have hpush : handed t { w with pushed := w.pushed ++ [(a, .assign assign)] } = handed t w + 1 := by
    simp only [handed, List.countP_append, List.countP_singleton, hmine, if_true]
    omega
  have hpost : handed t { w with posted := w.posted ++ [(a, .assign assign)] } = handed t w + 1 := by
    simp only [handed, List.countP_append, List.countP_singleton, hmine, if_true]
    omega
  unfold World.delivered addressable
  cases w.db.agents.get a with
  | none => rfl
  | some row =>
    obtain hk | hk : row.kind = .websocket ∨ row.kind = .webhook := by
      cases row.kind with
      | websocket => exact .inl rfl
      | webhook => exact .inr rfl
    · simpa [hk] using hpush
    · cases hurl : row.hookUrl.any (· != "") with
      | true => simpa [hk, hurl] using hpost
      | false => simp [hk, hurl]

/-- The re-queue branch. -/
theorem handover_requeueTask {assign : Assign} {task : Task} (hp : Pending t base task)
    (hb : Before t base w) (htask : assign.task = t) :
    Handover S t a base (requeueTask t a assign) w := by
  have hpw := hp.before hb
  have hhanded : handed t w = handed t base := (Prod.mk.inj (Prod.mk.inj hb.sight).2).2
  have hevents : queuedEvents t w.db = queuedEvents t base.db :=
    (Prod.mk.inj (Prod.mk.inj hb.sight).2).1
  have hmarked : ∀ i n, QueuedAt t (upTo (exec S) (n + 1) (requeueTask t a assign) i w) := by
    intro i n
    have hrow : ∀ {db : Database} {now : Time}, db.tasks = w.db.tasks →
        ((db.saveTask t { latestEventKind := some .queued } now).tasks.get t).any
          (fun task => task.latestEventKind == .queued) = true := by
      intro db now hdb
      rw [Database.get_saveTask_self, hdb, hpw.stored]
      rfl
    rw [upTo_requeueTask hpw]
    unfold QueuedAt
    match n with
    | 0 => exact hrow rfl
    | n + 1 =>
      dsimp only
      split
      · rw [World.delivered_db]
        exact hrow rfl
      · exact hrow rfl
  -- up to the third statement after the claim nothing is handed out
  have hearly : ∀ {i : Nat → Input} {n : Nat} {db : Database}, n - 3 = 0 →
      (Redelivered t base { w with db := db } ↔ addressable a base = true ∧
        QueuedAt t (upTo (exec S) (n - 3) (requeueTask t a assign) i w)) := by
    intro i n db hn
    have hsame : handed t { w with db := db } = handed t base := hhanded
    refine iff_of_false (fun h => ?_) fun h => ?_
    · exact absurd h.2 (by rw [hsame]; exact lt_irrefl _)
    · rw [hn, upTo_zero] at h
      exact hpw.not_queuedAt ⟨rfl, rfl⟩ h.2
  intro i n hq
  match n with
  | 0 =>
    rw [upTo_zero] at hq
    exact absurd hq (hpw.not_queuedAt ⟨rfl, rfl⟩)
  | 1 =>
    rw [upTo_requeueTask hpw]
    exact hearly rfl
  | n + 2 =>
    rw [upTo_requeueTask hpw]
    by_cases hn : 2 ≤ n
    · rw [show n + 2 - 3 = n - 2 + 1 by omega]
      simp only [hn, if_true]
      have hqueued : queuedEvents t (w.db.note t .queued (some queuedMessage) (i 0).now) =
          queuedEvents t w.db + 1 := by
        show queuedEvents t (w.db.record _) = _
        rw [queuedEvents_record, if_pos ⟨rfl, rfl⟩]
      have haddressable : addressable a { w with
          db := w.db.note t .queued (some queuedMessage) (i 0).now } = addressable a base := by
        unfold addressable
        rw [← hb.agents]
        rfl
      have hsame : handed t { w with
          db := w.db.note t .queued (some queuedMessage) (i 0).now } = handed t base := hhanded
      unfold Redelivered
      rw [World.delivered_db, hqueued, handed_delivered htask, haddressable, hevents, hsame]
      cases addressable a base with
      | false => simp
      | true => simpa using hmarked i (n - 2)
    · simp only [hn, if_false]
      exact hearly (by omega)

theorem read_idle {q : Query} : Idle t (.read q) := ⟨⟨nofun, trivial⟩, trivial⟩

/-- A round on the task itself. -/
theorem handover_failAndCascade {server : ServerId} {row : InFlight} {task : Task}
    (hp : Pending t base task) (hb : Before t base w) (hid : row.id = t)
    (hagent : row.task.agent = a) : Handover S t a base (failAndCascade server row) w := by
  subst hid
  have hdisconnect : ∀ {w' : World}, Before row.id base w' →
      Handover S row.id a base (disconnectTask row.id) w' := fun hb' =>
    handover_marksNone hp hb' (claimAndRecord_marksNone nofun)
  refine handover_bind hp hb (.issue ⟨⟨nofun, trivial⟩, trivial⟩) fun _ w₁ hb₁ => ?_
  dsimp only
  split
  · exact handover_marksNone hp hb₁ (claimAndRecord_marksNone nofun)
  split
  swap
  · exact hdisconnect hb₁
  simp only [buildRedispatchAssignSync, bind_eq, bind_assoc]
  refine handover_bind hp hb₁ (.issue read_idle) fun _ w₂ hb₂ =>
    handover_bind hp hb₂ (orDoesNotExist_built Issues.compositional) fun source w₃ hb₃ => ?_
  split
  · rw [bind_assoc]
    refine handover_bind hp hb₃ (.issue read_idle) fun token w₄ hb₄ => ?_
    cases token with
    | error e => exact hdisconnect hb₄
    | ok token =>
      rw [← hagent]
      exact handover_requeueTask hp hb₄ rfl
  · exact hdisconnect hb₃

/-- The rounds of a cascade, one on each row. -/
theorem handover_rounds {server : ServerId} {rows : List InFlight} {task : Task}
    (hp : Pending t base task) (hb : Before t base w) (hnodup : (rows.map (·.id)).Nodup)
    (hagent : ∀ row ∈ rows, row.task.agent = a) :
    Handover S t a base (Prog.forEach (failAndCascade server) rows) w := by
  induction rows generalizing w with
  | nil => exact handover_ret hp hb
  | cons row rows ih =>
    obtain ⟨hnot, hnodup⟩ := List.nodup_cons.mp hnodup
    by_cases hid : row.id = t
    · refine handover_bind_idle (by rw [(hp.before hb).stored]; rfl)
        (handover_failAndCascade hp hb hid (hagent row List.mem_cons_self)) fun _ =>
          Issues.compositional.forEach fun other hmem => failAndCascade_idle ?_
      rintro rfl
      exact hnot (List.mem_map.mpr ⟨other, hmem, hid.symm⟩)
    · exact handover_bind hp hb (failAndCascade_idle hid) fun _ w' hb' =>
        ih hb' hnodup fun other hmem => hagent other (List.mem_cons_of_mem _ hmem)

theorem handover_orphanCascade {server : ServerId} {task : Task} (hp : Pending t base task) :
    Handover S t a base (orphanCascade server a) base := by
  refine handover_stmt hp ⟨rfl, rfl⟩ read_idle fun i => ?_
  refine handover_rounds hp ⟨rfl, rfl⟩ ?_ fun row hrow => (mem_inFlight.mp hrow).2.1
  show ((base.db.inFlight i.rank a).map (·.id)).Nodup
  rw [Database.inFlight, List.map_map]
  exact Table.keys_selectBy_nodup

/-! ## The next cascade -/

/-- The task has as many QUEUED events and was handed out as often. -/
def SameHandover (t : TaskId) (w w' : World) : Prop :=
  queuedEvents t w'.db = queuedEvents t w.db ∧ handed t w' = handed t w

theorem SameHandover.redelivered (h : SameHandover t w w') :
    Redelivered t base w' ↔ Redelivered t base w := by
  unfold Redelivered
  rw [h.1, h.2]

theorem SameHandover.trans {w'' : World} (h : SameHandover t w w') (h' : SameHandover t w' w'') :
    SameHandover t w w'' :=
  ⟨h'.1.trans h.1, h'.2.trans h.2⟩

theorem queuedEvents_recordSave {db : Database} {e : TaskEvent} {id : TaskId} {u : TaskUpdate}
    {now : Time} (h : ¬ (e.task = t ∧ e.kind = .queued)) :
    queuedEvents t ((db.record e).saveTask id u now) = queuedEvents t db := by
  show queuedEvents t (db.record e) = _
  rw [queuedEvents_record, if_neg h, Nat.add_zero]

/-- A round that finds the task marked, or is on another task. -/
theorem sameHandover_round {row : InFlight} (hr : Round S ok row w w')
    (h : row.id = t → row.task.latestEventKind = .queued) : SameHandover t w w' := by
  cases hr with
  | strike i now => exact ⟨queuedEvents_recordSave (fun h => nomatch h.2), rfl⟩
  | disconnect now => exact ⟨queuedEvents_recordSave (fun h => nomatch h.2), rfl⟩
  | skip => exact ⟨rfl, rfl⟩
  | requeue i now assign hp hretry hre htask =>
    have hne : row.id ≠ t := by
      intro hid
      simp [InFlight.retryable, h hid] at hretry
    have hmute : Mute t (.assign assign) := by
      show assign.task ≠ t
      rw [htask]
      exact hne
    refine ⟨?_, ?_⟩
    · rw [World.delivered_db]
      exact queuedEvents_recordSave fun h => hne h.1
    · unfold World.delivered
      split
      · rfl
      split
      · exact handed_deliver (c := .push _ _) hmute
      · split
        · exact handed_deliver (c := .post _ _) hmute
        · rfl

/-- A complete cascade does not hand over what it finds marked. -/
theorem wp_next {server : ServerId} (hlinked : w.db.Linked) (hq : QueuedAt t w) :
    wp (exec S) ok (orphanCascade server a) (fun _ w' => SameHandover t w w') w := by
  refine wp_orphanCascade (J := fun rows w' => SameHandover t w w' ∧
    ((∃ row ∈ rows, row.id = t) → QueuedAt t w')) (fun _ _ hg ha => ha ▸ hlinked.agent hg)
    (fun _ => ⟨⟨rfl, rfl⟩, fun _ => hq⟩) (fun _ _ _ h => h) (fun row rest w₁ w₂ hcur h hr => ?_)
    fun _ h => h.1
  have hc := hcur.row row List.mem_cons_self
  have hround : SameHandover t w₁ w₂ := by
    refine sameHandover_round hr fun hid => ?_
    have hmarked := h.2 ⟨row, List.mem_cons_self, hid⟩
    unfold QueuedAt at hmarked
    rw [← hid, hc.loaded] at hmarked
    simpa using hmarked
  refine ⟨h.1.trans hround, ?_⟩
  rintro ⟨other, hmem, rfl⟩
  have hne : other.id ≠ row.id := fun heq =>
    (List.nodup_cons.mp hcur.nodup).1 (List.mem_map.mpr ⟨other, hmem, heq⟩)
  unfold QueuedAt
  rw [hr.get_of_ne hne]
  exact h.2 ⟨other, List.mem_cons_of_mem _ hmem, rfl⟩

/-- The calls neither write the task nor hand it out. -/
def SparedBy (S : Settings) (t : TaskId) : World → List (Call × (Nat → Input)) → Prop
  | _, [] => True
  | w, (c, i) :: calls => Meets (exec S) (fun _ c _ => Spares t c) (c.code S) i w ∧
      SparedBy S t (runAlone S (c.code S) i w) calls

theorem sight_spared {calls : List (Call × (Nat → Input))}
    (hthere : (w.db.tasks.get t).isSome = true) (h : SparedBy S t w calls) :
    sight t (runAll S (Call.code S) w calls) = sight t w := by
  induction calls generalizing w with
  | nil => rfl
  | cons call calls ih =>
    obtain ⟨c, i⟩ := call
    have hkeeps : Keeps (exec S) (fun _ c _ => Spares t c)
        (fun w' : World => sight t w' = sight t w) (c.code S) := by
      refine Keeps.of_steps fun j c w' hc hw' => ?_
      have hstill : (w'.db.tasks.get t).isSome = true := by rw [(Prod.mk.inj hw').1, hthere]
      exact (sight_spares hc hstill).trans hw'
    have hfirst : sight t (runAlone S (c.code S) i w) = sight t w := hkeeps.run rfl h.1
    refine (ih ?_ h.2).trans hfirst
    rw [(Prod.mk.inj hfirst).1, hthere]

theorem linked_runAll {calls : List (Call × (Nat → Input))} (h : w.db.Linked) :
    (runAll S (Call.code S) w calls).db.Linked := by
  induction calls generalizing w with
  | nil => exact h
  | cons call calls ih => exact ih (linked_runAlone h)

/-- **A re-queued task is in the queue**, after a cascade that was cut off and one that was not,
exactly where the agent is addressable and the first was cut off at least three statements after it
marked the task. -/
theorem requeued_in_queue_iff (S : Settings) (server server' : ServerId) (a : AgentId) (t : TaskId)
    (task : Task) (w : World) (i j : Nat → Input) (n : Nat) (calls : List (Call × (Nat → Input)))
    (hw : w.db.Linked) (ht : InHand a w.db t task) (hkind : task.latestEventKind ≠ .queued) :
    let cut := upTo (exec S) n (orphanCascade server a) i w
    QueuedAt t cut → SparedBy S t cut calls →
    (Redelivered t w (runAlone S (orphanCascade server' a) j (runAll S (Call.code S) cut calls)) ↔
      addressable a w = true ∧ QueuedAt t (upTo (exec S) (n - 3) (orphanCascade server a) i w)) := by
  intro cut hq hspared
  have hcut : cut.db.Linked := by
    have hissues : Prog.Issues (L := Statements) (fun _ => True) (orphanCascade server a) := by
      generalize orphanCascade server a = p
      induction p with
      | ret x => trivial
      | fail e => trivial
      | stmt c k ih => exact ⟨trivial, ih⟩
    exact upTo_inv (exec S) i w (I := fun w => w.db.Linked) (fun _ _ _ _ h => linked_exec h)
      hissues n hw
  have hthere : (cut.db.tasks.get t).isSome = true := by
    unfold QueuedAt at hq
    cases hg : cut.db.tasks.get t with
    | none => rw [hg] at hq; cases hq
    | some task => rfl
  have hsight := sight_spared hthere hspared
  have hsame : SameHandover t (runAll S (Call.code S) cut calls)
      (runAlone S (orphanCascade server' a) j (runAll S (Call.code S) cut calls)) :=
    wp_run (wp_next (linked_runAll hcut) ((queuedAt_congr hsight).mpr hq)) meets_any
  rw [hsame.redelivered, redelivered_congr hsight]
  exact handover_orphanCascade ⟨ht.stored, ht.open, hkind⟩ i n hq

section Cut

theorem requeued_in_queue_uncut :
    Redelivered 1 (orphanWorld true) (runAlone {} (orphanCascade 0 1) (fun _ => {})
      (upTo (exec {}) 8 (orphanCascade 0 1) (fun _ => {}) (orphanWorld true))) :=
  (requeued_in_queue_iff {} 0 0 1 1 _ (orphanWorld true) (fun _ => {}) (fun _ => {}) 8 []
    linked_orphanWorld ⟨rfl, rfl, rfl⟩ (by decide) (by decide +kernel) trivial).mpr
    ⟨rfl, by decide +kernel⟩

/-- Cut off right after the claim: the next cascade reports the task disconnected, and nothing was
handed out. -/
theorem cut_before_event_never_redelivered :
    let cut := upTo (exec {}) 5 (orphanCascade 0 1) (fun _ => {}) (orphanWorld true)
    QueuedAt 1 cut ∧
      ¬ Redelivered 1 (orphanWorld true) (runAlone {} (orphanCascade 0 1) (fun _ => {}) cut) := by
  decide +kernel

end Cut

end Requeue
end Rekuest
