import Rekuest.ModelPersistBackend
import Rekuest.Tasks.Interrupt

/-!
# Rekuest.Tasks.CallerControl

What the control request of a caller may do, and what it is answered.

* `Authorized`: the named task is there and open, and its caller is who asks.
* `Effects`: a task, an event or a message to an agent is new or changed.
* `Answered`: the reply to a request, against its effects.
* `caller_control_answered`: every request is answered so, whatever its text names.
-/

namespace Rekuest
namespace CallerControl

open Interleave Interleave.Prog
open Backend (ControlOp)
open Control (Spared Mailed)
open Reference (identity)

/-! ## Requests -/

/-- The control requests of a caller. -/
inductive Request where
  | cancel (autoInterrupt : Option Time)
  | interrupt
  | pause
  | resume (step : Bool)

namespace Request

def op : Request → ControlOp
  | cancel _ => .cancel
  | interrupt => .interrupt
  | pause => .pause
  | resume step => .resume step

def message (m : ControlRequest) : Request → FromAgentMessage
  | cancel autoInterrupt => .cancelRequest m autoInterrupt
  | interrupt => .interruptRequest m
  | pause => .pauseRequest m
  | resume step => .resumeRequest m step

end Request

/-- The agent asks as the caller `c`. -/
def AsksAs (w : World) (agent : AgentId) (c : CallerId) : Prop :=
  ∃ row, w.db.agents.get agent = some row ∧ w.db.callerOf? (identity row) = some c

/-- The task is there and open, and its caller is who asks. -/
structure Authorized (w : World) (agent : AgentId) (id : TaskId) (task : Task) : Prop where
  there : w.db.tasks.get id = some task
  owned : ∃ c, AsksAs w agent c ∧ task.caller = some c
  undone : task.isDone = false

/-! ## Effects -/

/-- A task, an event or a message to an agent is new or changed. -/
def Effects (w w' : World) : Prop :=
  w'.db.tasks ≠ w.db.tasks ∨ w'.db.events ≠ w.db.events ∨ w'.pushed ≠ w.pushed ∨
    w'.posted ≠ w.posted

/-- The request on task `id` is about task `t`: it is the named one or, for an interrupt, an open
one whose root is the named one. -/
def Concerns (op : ControlOp) (id : TaskId) (w : World) (t : TaskId) (row : Task) : Prop :=
  w.db.tasks.get t = some row ∧
    (t = id ∨ op = .interrupt ∧ row.isDone = false ∧ row.root = some id)

/-- Nothing but what the request is about is touched, and nobody else is told. -/
structure Confined (op : ControlOp) (id : TaskId) (w w' : World) : Prop where
  spared : ∀ t, (∀ row, ¬ Concerns op id w t row) → Spared t w w'
  mailed : Mailed (fun m => ∃ t row, Concerns op id w t row ∧ m = (row.agent, op.toAgent t)) w w'

/-- The reply to a request, against what the request did. -/
structure Answered (toPython : String → Except Error TaskId) (agent : AgentId) (m : ControlRequest)
    (op : ControlOp) (w : World) (result : Except Error (Option Reply)) (w' : World) : Prop where
  replied : ∃ task accepted error, result = .ok (some (.controlResponse m.id task accepted error)) ∧
    (accepted = true ↔ Effects w w')
  allowed : Effects w w' → ∃ id task, toPython m.task = .ok id ∧ Authorized w agent id task ∧
    Confined op id w w'
  granted : ∀ id task, toPython m.task = .ok id → Authorized w agent id task → Effects w w'
  quiet : ¬ Effects w w' → w'.timers = w.timers

variable {S : Settings} {ok : Input → Stmt → World → Prop} {w w' w'' : World} {agent : AgentId}
  {id t : TaskId} {task : Task} {op : ControlOp}

/-! ## Targets -/

theorem concerns_of_target {i : Input} {x : TaskId × Task} (hg : w.db.tasks.get id = some task)
    (hx : x ∈ w.db.targets op i id task) : Concerns op id w x.1 x.2 := by
  obtain rfl | hx := List.mem_cons.mp hx
  · exact ⟨hg, .inl rfl⟩
  split at hx
  · rename_i hp
    obtain ⟨hrow, hsel⟩ := Table.mem_selectBy.mp hx
    simp only [Bool.and_eq_true, decide_eq_true_eq, Bool.not_eq_true'] at hsel
    refine ⟨hrow, .inr ⟨?_, hsel.2, hsel.1⟩⟩
    cases op with
    | interrupt => rfl
    | _ => cases hp
  · cases hx

theorem confined_targets {i : Input} (hg : w.db.tasks.get id = some task) :
    Confined op id w ((w.db.targets op i id task).foldl (World.controlled op) w) where
  spared t ht := by
    refine Control.spared_controlAll fun hmem => ?_
    obtain ⟨x, hx, rfl⟩ := List.mem_map.mp hmem
    exact ht x.2 (concerns_of_target hg hx)
  mailed := Mailed.controlAll fun x hx => ⟨x.1, x.2, concerns_of_target hg hx, rfl⟩

theorem events_controlled_length {target : TaskId × Task} :
    (w.controlled op target).db.events.length = w.db.events.length + 1 := by
  rw [World.controlled, World.delivered_db]
  simp [Database.record]

theorem events_controlAll_length {targets : List (TaskId × Task)} :
    (targets.foldl (World.controlled op) w).db.events.length =
      w.db.events.length + targets.length := by
  induction targets generalizing w with
  | nil => rfl
  | cons x targets ih =>
    rw [List.foldl_cons, ih, events_controlled_length, List.length_cons]
    omega

/-- The named task is always told, so a request that goes through leaves its event. -/
theorem effects_targets {i : Input} :
    Effects w ((w.db.targets op i id task).foldl (World.controlled op) w) := by
  refine .inr (.inl fun heq => ?_)
  have hlength := congrArg List.length heq
  rw [events_controlAll_length, Database.targets, List.length_cons] at hlength
  omega

/-! ## The operations -/

/-- Nothing that the request could have touched is touched. -/
structure Untouched (w w' : World) : Prop where
  tasks : w'.db.tasks = w.db.tasks
  events : w'.db.events = w.db.events
  pushed : w'.pushed = w.pushed
  posted : w'.posted = w.posted
  timers : w'.timers = w.timers

theorem Untouched.refl : Untouched w w := ⟨rfl, rfl, rfl, rfl, rfl⟩

theorem Untouched.no_effects (h : Untouched w w') : ¬ Effects w w' := by
  rintro (h' | h' | h' | h')
  · exact h' h.tasks
  · exact h' h.events
  · exact h' h.pushed
  · exact h' h.posted

/-- What an operation on task `id` comes to: it is the caller's and open, and no more than what
the operation is about is touched, or it raises. -/
def Decided (op : ControlOp) (agent : AgentId) (id : TaskId) (w : World) :
    Except Error TaskId → World → Prop
  | .ok _, w' => (∃ task, Authorized w agent id task) ∧ Effects w w' ∧ Confined op id w w'
  | .error _, w' => (∀ task, ¬ Authorized w agent id task) ∧ Untouched w w'

/-- The caller of an agent is there, or is made, and nothing else changes. -/
theorem wp_getOrCreateCaller {key : AgentIdentity} {Q : Except Error CallerId → World → Prop}
    (hfound : ∀ c, w.db.callerOf? key = some c → Q (.ok c) w)
    (hmade : w.db.callerOf? key = none → Q (.ok w.db.callers.next) { w with db := { w.db with
      callers := w.db.callers.insert ⟨key.client, key.user, key.organization⟩ } }) :
    wp (exec S) ok (Prog.issue (L := Statements) (.getOrCreateCaller key)) Q w := by
  intro i _
  cases hk : w.db.callerOf? key with
  | some c =>
    have hx : exec S i (.getOrCreateCaller key) w = (c, w) := by simp only [exec, hk]
    rw [hx]
    exact hfound c hk
  | none =>
    have hx : exec S i (.getOrCreateCaller key) w = (w.db.callers.next, { w with db := { w.db with
        callers := w.db.callers.insert ⟨key.client, key.user, key.organization⟩ } }) := by
      simp only [exec, hk]
    rw [hx]
    exact hmade hk

theorem wp_getAgent {agent : AgentId} {Q : Except Error (Option Agent) → World → Prop}
    (h : Q (.ok (w.db.agents.get agent)) w) : wp (exec S) ok (getAgent agent) Q w :=
  wp_ask fun _ => h

theorem asksAs_iff {row : Agent} {c : CallerId} (hrow : w.db.agents.get agent = some row) :
    AsksAs w agent c ↔ w.db.callerOf? (identity row) = some c := by
  simp [AsksAs, hrow]

theorem wp_callerControlSync (hl : w.db.Linked) :
    wp (exec S) ok (Backend.callerControlSync agent op id) (Decided op agent id w) w := by
  refine wp_bind.mpr (wp_getAgent ?_)
  cases hrow : w.db.agents.get agent with
  | none =>
    refine ⟨fun task h => ?_, .refl⟩
    obtain ⟨c, ⟨row, hrow', _⟩, _⟩ := h.owned
    rw [hrow] at hrow'
    cases hrow'
  | some row =>
    show wp _ _ (Prog.bind (Prog.issue (L := Statements) (.getOrCreateCaller (identity row))) _) _ _
    refine wp_bind.mpr (wp_getOrCreateCaller (fun c hc => ?_) fun hnone => ?_)
    · have hasks : AsksAs w agent c := ⟨row, hrow, hc⟩
      refine wp_bind.mpr (wp_ask fun i => ?_)
      show wp _ _ ((orDoesNotExist "Task" (w.db.tasks.get id)).bind _) _ _
      cases hg : w.db.tasks.get id with
      | none =>
        refine ⟨fun task h => ?_, .refl⟩
        rw [h.there] at hg
        cases hg
      | some task =>
        show wp _ _ (if (task.caller != some c) = true then _ else _) _ _
        split
        · rename_i hforeign
          refine ⟨fun task' h => ?_, .refl⟩
          cases hg.symm.trans h.there
          obtain ⟨c', hc', howned⟩ := h.owned
          rw [asksAs_iff hrow, hc] at hc'
          cases hc'
          simp [howned] at hforeign
        · rename_i hown
          have howned : task.caller = some c := by simpa using hown
          cases hd : task.isDone with
          | true =>
            refine wp_bind.mpr (wp_ask fun i => ?_)
            dsimp only [after, Query.eval]
            simp only [hg, orDoesNotExist, bind_eq, ret_bind, hd, if_true]
            refine ⟨fun task' h => ?_, .refl⟩
            cases hg.symm.trans h.there
            rw [h.undone] at hd
            cases hd
          | false =>
            exact Control.wp_requestControl hl hg hd fun i =>
              ⟨⟨task, hg, ⟨c, hasks, howned⟩, hd⟩, effects_targets, confined_targets hg⟩
    · -- the caller is new, so no task can be its own
      have hnot : ∀ task, ¬ Authorized w agent id task := by
        intro task h
        obtain ⟨c, hc, _⟩ := h.owned
        rw [asksAs_iff hrow, hnone] at hc
        cases hc
      refine wp_bind.mpr (wp_ask fun i => ?_)
      show wp _ _ ((orDoesNotExist "Task" (w.db.tasks.get id)).bind _) _ _
      cases hg : w.db.tasks.get id with
      | none => exact ⟨hnot, rfl, rfl, rfl, rfl, rfl⟩
      | some task =>
        show wp _ _ (if (task.caller != some w.db.callers.next) = true then _ else _) _ _
        split
        · exact ⟨hnot, rfl, rfl, rfl, rfl, rfl⟩
        · rename_i hown
          have howned : task.caller = some w.db.callers.next := by simpa using hown
          obtain ⟨caller, hcaller⟩ := hl.caller hg howned
          rw [Table.get_next] at hcaller
          cases hcaller

/-- The escalation of a cancel is armed only behind the cancel itself. -/
theorem wp_onCallerCancel {server : ServerId} {autoInterrupt : Option Time} (hl : w.db.Linked) :
    wp (exec S) ok (Backend.onCallerCancel server agent id autoInterrupt)
      (Decided .cancel agent id w) w := by
  refine wp_bind.mpr (wp_mono ?_ (wp_callerControlSync hl))
  rintro (e | a) w' h
  · exact h
  cases autoInterrupt with
  | none => exact h
  | some window =>
    intro i _
    obtain ⟨hauth, heffects, hspared, hmailed⟩ := h
    exact ⟨hauth, heffects, fun t ht => ⟨(hspared t ht).row, (hspared t ht).events,
      (hspared t ht).mail⟩, hmailed.pushed, hmailed.posted⟩

theorem wp_refuseId {e : Error} :
    wp (exec S) ok (ModelPersistBackend.refuseId agent e)
      (fun r w' => (∃ e, r = .error e) ∧ Untouched w w') w := by
  refine wp_bind.mpr (wp_getAgent ?_)
  cases w.db.agents.get agent with
  | none => exact ⟨⟨_, rfl⟩, .refl⟩
  | some row =>
    show wp _ _ (Prog.bind (Prog.issue (L := Statements) (.getOrCreateCaller (identity row))) _) _ _
    exact wp_bind.mpr (wp_getOrCreateCaller (fun c _ => ⟨⟨_, rfl⟩, .refl⟩)
      fun _ => ⟨⟨_, rfl⟩, rfl, rfl, rfl, rfl, rfl⟩)

/-! ## The reply -/

variable {toPython : String → Except Error TaskId} {m : ControlRequest} {str : Error → String}
  {operation : TaskId → Handler TaskId}

/-- A request whose operation decides what it does is answered accordingly. -/
theorem wp_control (hop : ∀ id, wp (exec S) ok (operation id) (Decided op agent id w) w) :
    wp (exec S) ok (MessageRouter.control str
      (ModelPersistBackend.onTask toPython agent m operation) m)
      (Answered toPython agent m op w) w := by
  refine wp_exceptException.mpr (wp_bind.mpr ?_)
  unfold ModelPersistBackend.onTask
  cases hid : toPython m.task with
  | error e =>
    refine wp_mono ?_ wp_refuseId
    rintro _ w' ⟨⟨e, rfl⟩, hsame⟩
    refine ⟨fun _ => ?_, fun hc => by cases hc⟩
    refine ⟨⟨m.task, false, _, rfl, ?_⟩, ?_, ?_, fun _ => hsame.timers⟩
    · exact iff_of_false (by simp) hsame.no_effects
    · exact fun h => absurd h hsame.no_effects
    · intro id task hread
      rw [hid] at hread
      cases hread
  | ok id =>
    refine wp_mono ?_ (hop id)
    rintro (e | a) w' h
    · obtain ⟨hnot, hsame⟩ := h
      refine ⟨fun _ => ?_, fun hc => by cases hc⟩
      refine ⟨⟨m.task, false, _, rfl, ?_⟩, ?_, ?_, fun _ => hsame.timers⟩
      · exact iff_of_false (by simp) hsame.no_effects
      · exact fun h => absurd h hsame.no_effects
      · intro id' task hread hauth
        rw [hid] at hread
        cases hread
        exact absurd hauth (hnot task)
    · obtain ⟨⟨task, hauth⟩, heffects, hconfined⟩ := h
      refine ⟨⟨toString a, true, none, rfl, ?_⟩, ?_, ?_, ?_⟩
      · exact iff_of_true rfl heffects
      · exact fun _ => ⟨id, task, hid, hauth, hconfined⟩
      · exact fun _ _ _ _ => heffects
      · exact fun h => absurd heffects h

/-- **Caller control.** Every control request is answered, and accepted just when it has effects:
these stay with the named task, which is the caller's own and open, and what an interrupt reaches
from it. A request without effects arms no timer. -/
theorem caller_control_answered (S : Settings) (server : ServerId)
    (toPython : String → Except Error TaskId) (str : Error → String) (w : World)
    (hl : w.db.Linked) (agent : AgentId) (m : ControlRequest) (request : Request)
    (i : Nat → Input) :
    Answered toPython agent m request.op w
      ((MessageRouter.routeFromAgentMessage str
        (ModelPersistBackend.persistBackend S server toPython) agent
        (request.message m)).run (exec S) i w).result
      ((MessageRouter.routeFromAgentMessage str
        (ModelPersistBackend.persistBackend S server toPython) agent
        (request.message m)).run (exec S) i w).state := by
  suffices h : wp (exec S) anyStep (MessageRouter.routeFromAgentMessage str
      (ModelPersistBackend.persistBackend S server toPython) agent (request.message m))
      (Answered toPython agent m request.op w) w from wp_run h meets_any
  cases request with
  | cancel autoInterrupt => exact wp_control fun _ => wp_onCallerCancel hl
  | interrupt => exact wp_control fun _ => wp_callerControlSync hl
  | pause => exact wp_control fun _ => wp_callerControlSync hl
  | resume step => exact wp_control fun _ => wp_callerControlSync hl

/-- The field, as far as it reads one digit. -/
def readDigit (text : String) : Except Error TaskId :=
  match (List.range 10).find? fun id => toString id = text with
  | some id => .ok id
  | none => .error (.valueError s!"Field 'id' expected a number but got '{text}'.")

theorem caller_control_answered_pause :
    Answered readDigit 1 ⟨7, "1"⟩ .pause Interrupt.wrapped
      ((MessageRouter.routeFromAgentMessage (fun _ => "")
        (ModelPersistBackend.persistBackend {} 1 readDigit) 1
        (Request.pause.message ⟨7, "1"⟩)).run (exec {}) (fun _ => {}) Interrupt.wrapped).result
      ((MessageRouter.routeFromAgentMessage (fun _ => "")
        (ModelPersistBackend.persistBackend {} 1 readDigit) 1
        (Request.pause.message ⟨7, "1"⟩)).run (exec {}) (fun _ => {}) Interrupt.wrapped).state :=
  caller_control_answered {} 1 readDigit (fun _ => "") Interrupt.wrapped
    Interrupt.reached_assigned.linked 1 ⟨7, "1"⟩ .pause fun _ => {}

end CallerControl
end Rekuest
