import Rekuest.Models.Json

/-!
# Rekuest.Grace

The keyed timers of a server process, on an event loop that runs one task at a time.

* `TimerTask`: an asyncio task that runs `_run`, by what it awaits. A task that was cancelled is
  raised a `CancelledError` at its await: the sleep returns, and an action does with it what it
  likes. A task that was cancelled before its first step has no body to raise it in.
* `GraceScheduler`: the tasks in the order of their creation, `_tasks`, and the task that runs.
* `GraceScheduler.step`: a call of `schedule` or `cancel`, by whatever runs, or a move of a task.
-/

namespace Rekuest

/-- `d.pop(key, None)`. -/
def Dict.pop {α : Type} (d : Dict α) (key : String) : Dict α := d.filter fun m => m.1 ≠ key

theorem Dict.get?_pop {α : Type} (d : Dict α) (key key' : String) :
    (d.pop key).get? key' = if key' = key then none else d.get? key' := by
  induction d with
  | nil => simp [pop, get?]
  | cons m d ih =>
    have hpop : Dict.pop (m :: d) key = if m.1 = key then Dict.pop d key else m :: Dict.pop d key := by
      by_cases hm : m.1 = key <;> simp [pop, hm]
    rw [hpop, get?_cons]
    by_cases hm : m.1 = key
    · rw [if_pos hm, ih, hm]
      by_cases hkey : key' = key <;> simp [hkey]
    · rw [if_neg hm, get?_cons, ih]
      by_cases hkey : key' = m.1
      · rw [if_pos hkey, if_pos hkey, if_neg (by rw [hkey]; exact hm)]
      · rw [if_neg hkey, if_neg hkey]

/-- What a task of the scheduler awaits, if it is not running. -/
inductive TimerPhase where
  | created | sleeping | expired | acting | suspended | done
  deriving DecidableEq

structure TimerTask where
  key : String
  phase : TimerPhase := .created
  cancelled : Bool := false

namespace TimerTask

/-- `if not task.done(): task.cancel()`. -/
def cancel (task : TimerTask) : TimerTask :=
  if task.phase = .done then task else { task with cancelled := true }

/-- The loop takes the next step of the task. -/
def wake (task : TimerTask) : TimerTask :=
  match task.phase with
  | .created => { task with phase := if task.cancelled then .done else .sleeping }
  | .sleeping => if task.cancelled then { task with phase := .done } else task
  | .expired => { task with phase := if task.cancelled then .done else .acting }
  | .suspended => { task with phase := .acting }
  | .acting | .done => task

/-- The delay is over. The future of a sleep that was cancelled is not set. -/
def expire (task : TimerTask) : TimerTask :=
  if task.phase = .sleeping ∧ task.cancelled = false then { task with phase := .expired } else task

end TimerTask

structure GraceScheduler where
  timers : List TimerTask := []
  tasks : Dict Nat := []
  current : Option Nat := none

namespace GraceScheduler

inductive Event (K : Type) where
  | schedule (key : Option K)
  | cancel (key : Option K)
  | wake (t : Nat)
  | expire (t : Nat)
  | suspend (t : Nat)
  | complete (t : Nat)

/-- `self._tasks.pop(str(key), None)`, and the task that was there is cancelled. -/
def cancelText (s : GraceScheduler) (skey : String) : GraceScheduler :=
  match s.tasks.get? skey with
  | none => s
  | some t => { s with timers := s.timers.modify t .cancel, tasks := s.tasks.pop skey }

variable {K : Type} (str : K → String)

/-- `str(key)`. -/
def keyText : Option K → String
  | none => "None"
  | some key => str key

/-- `cancel`. `None` is no key. -/
def cancel (s : GraceScheduler) : Option K → GraceScheduler
  | none => s
  | some key => s.cancelText (str key)

def schedule (s : GraceScheduler) (key : Option K) : GraceScheduler :=
  let skey := keyText str key
  let s := s.cancelText skey
  { s with timers := s.timers ++ [{ key := skey }], tasks := s.tasks.set skey s.timers.length }

/-- The loop runs a task while no other runs. -/
def wake (s : GraceScheduler) (t : Nat) : GraceScheduler :=
  match s.current, s.timers[t]? with
  | none, some task =>
    { s with timers := s.timers.modify t .wake
             current := if task.wake.phase = .acting then some t else none }
  | _, _ => s

def expire (s : GraceScheduler) (t : Nat) : GraceScheduler :=
  match s.current with
  | none => { s with timers := s.timers.modify t .expire }
  | some _ => s

/-- The action of the running task awaits something. -/
def suspend (s : GraceScheduler) (t : Nat) : GraceScheduler :=
  if s.current = some t then
    { s with timers := s.timers.modify t fun task => { task with phase := .suspended }
             current := none }
  else s

/-- The action of the running task returns or raises, and `finally` removes what is registered. -/
def complete (s : GraceScheduler) (t : Nat) : GraceScheduler :=
  match s.timers[t]? with
  | none => s
  | some task =>
    if s.current = some t then
      { s with timers := s.timers.modify t fun task => { task with phase := .done }
               tasks := s.tasks.pop task.key
               current := none }
    else s

def step (s : GraceScheduler) : Event K → GraceScheduler
  | .schedule key => s.schedule str key
  | .cancel key => s.cancel str key
  | .wake t => s.wake t
  | .expire t => s.expire t
  | .suspend t => s.suspend t
  | .complete t => s.complete t

/-- The scheduler of a process, after these events. -/
def run (events : List (Event K)) : GraceScheduler := events.foldl (step str) {}

end GraceScheduler
end Rekuest
