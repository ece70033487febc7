import Rekuest.Tasks.Linked
import Rekuest.Tasks.Resend
import Rekuest.Timers.Pending

/-!
# Rekuest.Tasks.Silence.Threads

The progress lease of a physical task over any number of server processes. A process keeps its own
timers for the task; the database is shared. The handlers of the reports and the actions of the
timers are interleaved statement by statement.

* `Thread`: a handler or an action, with what it has left to run. `State.next`: a statement of one of
  them, a timer that fires, the end of one, or anything else that happens meanwhile.
* `Honoured`: an action that writes on the task does so a lease after the last Progress, and not while
  the task is paused.
* `Lone`: no timer fires where a Progress is on its way to arm it anew, and a Progress or a Paused is
  recorded while no action is under way and no timer of the task is left to it in another process; no
  Progress is recorded while the task is paused.
-/

namespace Rekuest
namespace Silence

open Interleave Interleave.Prog

/-! ## Threads -/

/-- A report of the task at one of the processes, or the action of a timer of the process. -/
inductive Act where
  | progress (server : ServerId) (percent : Option Int) (message : Option EventText)
  | paused (server : ServerId)
  | resumed (server : ServerId)
  | started (server : ServerId)
  | action (server : ServerId)

def Act.server : Act → ServerId
  | progress server _ _ => server
  | paused server => server
  | resumed server => server
  | started server => server
  | action server => server

def Act.isProgress : Act → Bool
  | progress .. => true
  | _ => false

def Act.isAction : Act → Bool
  | action _ => true
  | _ => false

structure Thread where
  act : Act
  rest : Handler Unit
  /-- It has recorded a Progress. -/
  recorded : Bool := false
  ended : Bool := false

/-- It has recorded an event of this kind, if any, and has `rest` left. -/
def Thread.step (kind : Option TaskEventKind) (rest : Handler Unit) (th : Thread) : Thread :=
  { th with rest := rest, recorded := th.recorded || kind = some .progress }

inductive Move where
  /-- A report arrives. -/
  | report (act : Act)
  /-- The thread issues its next statement. -/
  | run (n : Nat)
  /-- The timer that is registered in the process fires. -/
  | expire (server : ServerId)
  /-- A timer fires that is not registered any more. -/
  | expireLost (server : ServerId) (due : Time)
  /-- An action that was cancelled ends where it awaits. -/
  | stop (n : Nat)
  /-- The thread has come to its end. -/
  | finish (n : Nat)
  /-- Whatever else happens. -/
  | other (w : World)

structure Event where
  input : Input
  move : Move

structure State where
  world : World
  clock : Time
  threads : List Thread := []
  /-- The timer that is registered has begun its action. -/
  fired : ServerId → Bool := fun _ => false
  /-- The timers of which a process has lost the entry. -/
  lost : ServerId → List Time := fun _ => []
  /-- When Progress was recorded last. -/
  recorded : Option Time := none
  /-- The last lifecycle state that was confirmed. -/
  confirmed : Option TaskEventKind

section

variable (S : Settings) (t : TaskId)

def Act.code : Act → Handler Unit
  | progress server percent message => PersistBackend.onAgentProgress S server t percent message
  | paused server => PersistBackend.onAgentPaused server t
  | resumed server => PersistBackend.onAgentResumed server t
  | started server => PersistBackend.onAgentStarted server t
  | action _ => PersistBackend.reconcileSilentPhysicalOp t

def Act.thread (act : Act) : Thread := ⟨act, act.code S t, false, false⟩

/-- The kind of the event that the statement records of the task. -/
def recordedKind (w : World) : Stmt → Option TaskEventKind
  | .task (.createEvent e) => if e.task = t ∧ (w.db.tasks.get t).isSome then some e.kind else none
  | _ => none

/-- The process of which the statement arms or drops the timer. -/
def resets : Stmt → Option ServerId
  | .timer (.schedule server .progressLeases key _) => if key = t then some server else none
  | .timer (.cancel server .progressLeases key) => if key = t then some server else none
  | _ => none

def isLifecycle : TaskEventKind → Bool
  | .paused => true
  | .resumed => true
  | .started => true
  | _ => false

/-! ## Runs -/

/-- Thread `n` issues a statement, and has `rest` left. -/
def State.issue (s : State) (n : Nat) (i : Input) (c : Stmt) (rest : Handler Unit) : State :=
  let kind := recordedKind t s.world c
  { s with
    world := (exec S i c s.world).2
    clock := i.now
    threads := s.threads.modify n (Thread.step kind rest)
    fired := match resets t c with
      | some server => Function.update s.fired server false
      | none => s.fired
    recorded := if kind = some .progress then some i.now else s.recorded
    confirmed := if kind.any isLifecycle then kind else s.confirmed }

def State.run (s : State) (n : Nat) (i : Input) : State :=
  match s.threads[n]? with
  | none => s
  | some th =>
    match th.rest with
    | .stmt c k => s.issue S t n i c (k (exec S i c s.world).1)
    | _ => s

/-- `finally: self._tasks.pop(key, None)`. -/
def State.pop (s : State) (server : ServerId) : State :=
  { s with
    world := s.world.setTimer server .progressLeases t none
    lost := match s.world.timers server .progressLeases t with
      | some due =>
        if s.fired server then s.lost else Function.update s.lost server (due :: s.lost server)
      | none => s.lost }

def State.finish (s : State) (n : Nat) : State :=
  match s.threads[n]? with
  | none => s
  | some th =>
    let s := { s with threads := s.threads.modify n fun th => { th with ended := true } }
    match th.act with
    | .action server => s.pop t server
    | _ => s

def State.next (s : State) (e : Event) : State :=
  match e.move with
  | .report act => { s with clock := e.input.now, threads := s.threads ++ [act.thread S t] }
  | .run n => s.run S t n e.input
  | .expire server =>
    { s with
      clock := e.input.now
      threads := s.threads ++ [(Act.action server).thread S t]
      fired := Function.update s.fired server true }
  | .expireLost server due =>
    { s with
      clock := e.input.now
      threads := s.threads ++ [(Act.action server).thread S t]
      lost := Function.update s.lost server ((s.lost server).erase due) }
  | .stop n =>
    { s with
      clock := e.input.now
      threads := s.threads.modify n fun th => { th with rest := .ret () } }
  | .finish n => { s.finish t n with clock := e.input.now }
  | .other w => { s with clock := e.input.now, world := w }

def isOpen (w : World) : Bool := (w.db.tasks.get t).any (!·.isDone)

/-- The task runs on an implementation with a physical effect. -/
def Physical (w : World) : Prop :=
  ∀ task ∈ w.db.tasks.get t,
    ((task.implementation.bind w.db.implementations.get).map (·.effect)) = some .physical

instance (w : World) : Decidable (Physical t w) :=
  inferInstanceAs (Decidable (∀ task ∈ w.db.tasks.get t,
    ((task.implementation.bind w.db.implementations.get).map (·.effect)) = some .physical))

/-- The event can happen: the clock goes on; Progress comes from a physical task; a timer that fires
is armed and due; only actions are cancelled; and nothing else arms a timer for the task or opens it
again. -/
def Possible (s : State) (e : Event) : Prop :=
  s.clock ≤ e.input.now ∧ match e.move with
    | .report act => act.isAction = false
    | .run n => ∃ th ∈ s.threads[n]?, th.rest.next?.isSome = true ∧
        (th.act.isProgress = true → Physical t s.world)
    | .expire server => s.fired server = false ∧
        ∃ due ∈ s.world.timers server .progressLeases t, due ≤ e.input.now
    | .expireLost server due => due ∈ s.lost server ∧ due ≤ e.input.now
    | .stop n => ∃ th ∈ s.threads[n]?, th.act.isAction = true
    | .finish n => ∃ th ∈ s.threads[n]?, th.ended = false ∧ th.rest.next? = none
    | .other w => Fewer .progressLeases t s.world w ∧ (isOpen t w → isOpen t s.world)

/-- The statement writes on a task. -/
def writesTask : Stmt → Bool
  | .task _ => true
  | _ => false

/-- The action of a timer writes on the task. -/
def strikes (s : State) (e : Event) : Bool :=
  match e.move with
  | .run n => (s.threads[n]?).any fun th => th.act.isAction && th.rest.next?.any writesTask
  | _ => false

/-- The task went silent: its last Progress is a lease ago, and it is not paused. -/
def Silent (s : State) (now : Time) : Prop :=
  (∀ since ∈ s.recorded, since + S.progressLeaseSeconds ≤ now) ∧ s.confirmed ≠ some .paused

instance (s : State) (now : Time) : Decidable (Silent S s now) :=
  inferInstanceAs (Decidable ((∀ since ∈ s.recorded, since + S.progressLeaseSeconds ≤ now) ∧ _))

/-- The task is ended only where it went silent. -/
def Honoured (s : State) (events : List Event) : Prop :=
  Along (State.next S t) (fun s e => strikes s e = true → Silent S s e.input.now) s events

/-- A Progress is recorded in the process, and has not come to its end. -/
def Thread.arms (server : ServerId) (th : Thread) : Bool :=
  th.act.isProgress && th.act.server = server && th.recorded && th.rest.next?.isSome

def Arming (s : State) (server : ServerId) : Prop := ∃ th ∈ s.threads, th.arms server = true

instance (s : State) (server : ServerId) : Decidable (Arming s server) :=
  inferInstanceAs (Decidable (∃ th ∈ s.threads, th.arms server = true))

/-- The action of a timer is under way. -/
def UnderWay (s : State) : Prop := ∃ th ∈ s.threads, th.act.isAction = true ∧ th.ended = false

instance (s : State) : Decidable (UnderWay s) :=
  inferInstanceAs (Decidable (∃ th ∈ s.threads, th.act.isAction = true ∧ th.ended = false))

/-- Progress is recorded while no action is under way; and where the task is open, while no other
process has a timer of it, and it is not paused. -/
structure LoneProgress (s : State) (server : ServerId) : Prop where
  quiet : ¬ UnderWay s
  alone : isOpen t s.world → 0 < S.progressLeaseSeconds → ∀ server', server' ≠ server →
    s.world.timers server' .progressLeases t = none
  running : isOpen t s.world → 0 < S.progressLeaseSeconds → s.confirmed ≠ some .paused

/-- Paused is recorded while no action is under way; and where the task is open, while there is no
timer of it, and no Progress that will arm one. -/
structure LonePaused (s : State) : Prop where
  quiet : ¬ UnderWay s
  alone : isOpen t s.world → ∀ server, s.world.timers server .progressLeases t = none
  settled : isOpen t s.world → ∀ server, ¬ Arming s server

def Lone (s : State) (e : Event) : Prop :=
  match e.move with
  | .run n => ∀ th ∈ s.threads[n]?, ∀ c ∈ th.rest.next?,
      (recordedKind t s.world c = some .progress → LoneProgress S t s th.act.server) ∧
        (recordedKind t s.world c = some .paused → LonePaused t s)
  | .expire server => ¬ Arming s server
  | _ => True

end

/-! ## Handlers -/

variable {S : Settings} {t : TaskId} {w w' : World} {server : ServerId} {i : Input} {c : Stmt}

theorem isOpen_iff : isOpen t w ↔ ∃ task, w.db.tasks.get t = some task ∧ task.isDone = false := by
  unfold isOpen
  rw [Option.any_eq_true]
  constructor
  · intro ⟨task, hg, hd⟩
    exact ⟨task, hg, by simpa using hd⟩
  · intro ⟨task, hg, hd⟩
    exact ⟨task, hg, by simpa using hd⟩

/-- A statement that arms no timer, creates no task and records no Progress. -/
def Mild : Stmt → Prop
  | .timer (.schedule _ registry _ _) => registry ≠ .progressLeases
  | .task (.create _) => False
  | .task (.createEvent e) => e.kind ≠ .progress
  | _ => True

/-- A statement of an action. -/
def Acting : Stmt → Prop
  | .timer _ => False
  | .task (.create _) => False
  | .task (.createEvent e) => e.kind = .critical
  | _ => True

theorem mild_of_acting (h : Acting c) : Mild c := by
  cases c with
  | timer c => exact h.elim
  | task c =>
    cases c with
    | createEvent e =>
      show e.kind ≠ .progress
      rw [show e.kind = .critical from h]
      decide
    | _ => exact h
  | _ => trivial

theorem unarmed_mild (h : Mild c) : Unarmed .progressLeases c := by
  cases c with
  | timer c =>
    cases c with
    | schedule server registry key delay => exact h
    | cancel server registry key => trivial
  | _ => trivial

theorem not_create_mild (h : Mild c) (row : Task) : c ≠ .task (.create row) := by
  rintro rfl
  exact h

/-- Nothing opens the task again. -/
theorem isOpen_exec (h : ∀ row, c ≠ .task (.create row)) (hopen : isOpen t (exec S i c w).2) :
    isOpen t w := by
  obtain ⟨task', hg', hd'⟩ := isOpen_iff.mp hopen
  obtain ⟨task, hg, he⟩ | ⟨rfl, _⟩ := get_exec_cases hg'
  · refine isOpen_iff.mpr ⟨task, hg, ?_⟩
    cases hd : task.isDone with
    | false => rfl
    | true => rw [he.done hd] at hd'; cases hd'
  · exact absurd rfl (h _)

theorem confirm_mild {id : TaskId} {kind : TaskEventKind} {cancelLease : Bool}
    (hk : kind ≠ .progress) : Prog.Issues (L := Statements) Mild
      (PersistBackend.onNonterminalConfirm server id kind cancelLease) := by
  have hrest : Prog.Issues (L := Statements) Mild
      (PersistBackend.onNonterminalConfirm server id kind false) := by
    refine Issues.compositional.bind (.issue trivial) fun row => ?_
    cases row with
    | none => trivial
    | some x =>
      dsimp only
      split
      · trivial
      · exact Issues.compositional.bind (createEvent_built Issues.compositional (.issue hk))
          fun _ => .issue trivial
  cases cancelLease with
  | false => exact hrest
  | true => exact Issues.compositional.bind (.issue trivial) fun _ => hrest

theorem reconcile_acting : Prog.Issues (L := Statements) Acting
    (PersistBackend.reconcileSilentPhysicalOp t) := by
  refine Issues.compositional.bind (.issue trivial) fun row =>
    Issues.compositional.bind (orDoesNotExist_built Issues.compositional) fun task => ?_
  split
  · trivial
  · exact Issues.compositional.bind (createEvent_built Issues.compositional (.issue rfl))
      fun _ => .issue trivial

theorem onAgentProgress_eq {percent : Option Int} {message : Option EventText} :
    PersistBackend.onAgentProgress S server t percent message =
      .stmt (.task (.createEvent
        { task := t, kind := .progress, progress := percent, message := message }))
        fun stored : Bool => Prog.bind (if stored = true then .ret () else .fail .integrityError)
          fun _ => PersistBackend.armProgressLease S server t := rfl

/-- The last statement of `armProgressLease`. -/
def rearm (S : Settings) (t : TaskId) (server : ServerId) : Handler Unit :=
  .stmt (.timer (.schedule server .progressLeases t S.progressLeaseSeconds)) .ret

theorem armProgressLease_eq (hlease : 0 < S.progressLeaseSeconds) :
    PersistBackend.armProgressLease S server t =
      .stmt (.read (.taskImplementation t)) fun row => (orDoesNotExist "Task" row).bind fun x =>
        if x.1.isDone || (x.2.map (·.effect)) != some .physical then .ret ()
        else rearm S t server := by
  unfold PersistBackend.armProgressLease
  rw [if_neg (not_le.mpr hlease)]
  rfl

theorem armProgressLease_disabled (hlease : ¬ 0 < S.progressLeaseSeconds) :
    PersistBackend.armProgressLease S server t = .ret () := by
  unfold PersistBackend.armProgressLease
  rw [if_pos (not_lt.mp hlease)]
  rfl

end Silence
end Rekuest
