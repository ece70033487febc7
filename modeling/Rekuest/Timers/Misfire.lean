import Mathlib.Data.List.Induction
import Rekuest.Grace
import Rekuest.Interleave.System

/-!
# Rekuest.Timers.Misfire

Which timers a scheduler knows, over every run.

* `GraceScheduler.Live`: a timer that has neither been cancelled nor finished. `Inv`: these are the
  timers that are registered, so there is at most one for a key.
* `Undisturbed`: no action ends while a newer timer of its key is registered. Such an action would
  remove the entry of the newer timer, which could then not be cancelled any more.
* `keyed_timers`: the registry is exact, no timer misfires and `cancel` stops what it should, in the
  runs that are undisturbed and in no others.
-/

namespace Rekuest

open Interleave

/-- The task can still run its action to the end. -/
def TimerTask.Live (task : TimerTask) : Prop := task.cancelled = false ∧ task.phase ≠ .done

def TimerTask.Started (task : TimerTask) : Prop := task.phase = .acting ∨ task.phase = .suspended

/-- Its delay has not expired. -/
def TimerTask.Unexpired (task : TimerTask) : Prop :=
  task.phase = .created ∨ task.phase = .sleeping

namespace GraceScheduler

variable {K : Type} {str : K → String} {s : GraceScheduler} {key : String} {t t' : Nat}

/-- A timer of the key that has neither been cancelled nor finished. -/
def Live (s : GraceScheduler) (key : String) (t : Nat) : Prop :=
  ∃ task, s.timers[t]? = some task ∧ task.key = key ∧ task.Live

/-- The timers that are registered are those that are live. -/
structure Inv (s : GraceScheduler) : Prop where
  entry : ∀ key t, s.tasks.get? key = some t ↔ s.Live key t
  running : ∀ t, s.current = some t → ∃ task, s.timers[t]? = some task ∧ task.phase = .acting

/-- No action ends while a newer timer of its key is registered. -/
def Undisturbed (s : GraceScheduler) (e : Event K) : Prop :=
  ∀ t task t', e = .complete t → s.current = some t → s.timers[t]? = some task →
    s.tasks.get? task.key = some t' → t' = t

/-! ## What a step does -/

theorem live_modify {f : TimerTask → TimerTask} {s' : GraceScheduler}
    (htimers : s'.timers = s.timers.modify t' f)
    (hf : ∀ task, s.timers[t']? = some task →
      (f task).key = task.key ∧ ((f task).Live ↔ task.Live)) :
    s'.Live key t ↔ s.Live key t := by
  simp only [Live, htimers, List.getElem?_modify]
  by_cases ht : t' = t
  · subst ht
    cases htask : s.timers[t']? with
    | none => simp
    | some task => simp [hf task htask]
  · simp [ht]

theorem live_wake (task : TimerTask) :
    task.wake.key = task.key ∧ (task.wake.Live ↔ task.Live) := by
  rcases task with ⟨key, phase, cancelled⟩
  cases phase <;> cases cancelled <;> simp [TimerTask.wake, TimerTask.Live]

theorem live_expire (task : TimerTask) :
    task.expire.key = task.key ∧ (task.expire.Live ↔ task.Live) := by
  rcases task with ⟨key, phase, cancelled⟩
  cases phase <;> cases cancelled <;> simp [TimerTask.expire, TimerTask.Live]

theorem get?_cancelText (s : GraceScheduler) (skey key : String) :
    (s.cancelText skey).tasks.get? key = if key = skey then none else s.tasks.get? key := by
  unfold cancelText
  cases h : s.tasks.get? skey with
  | none =>
    by_cases hkey : key = skey
    · rw [if_pos hkey, hkey]
      exact h
    · rw [if_neg hkey]
  | some t => exact Dict.get?_pop _ _ _

theorem current_cancelText (s : GraceScheduler) (skey : String) :
    (s.cancelText skey).current = s.current := by
  unfold cancelText
  split <;> rfl

/-- The task that is registered is cancelled, and no other. -/
theorem timers_cancelText (s : GraceScheduler) (skey : String) (t : Nat) :
    (s.cancelText skey).timers[t]? =
      if s.tasks.get? skey = some t then s.timers[t]?.map .cancel else s.timers[t]? := by
  unfold cancelText
  cases h : s.tasks.get? skey with
  | none => simp
  | some t' =>
    simp only [List.getElem?_modify, Option.some.injEq]
    by_cases ht : t' = t
    · simp [ht]
    · simp [ht]

theorem complete_eq {task : TimerTask} (htask : s.timers[t]? = some task)
    (hcurrent : s.current = some t) : s.complete t =
      { timers := s.timers.modify t fun task => { task with phase := .done }
        tasks := s.tasks.pop task.key, current := none } := by
  unfold complete
  rw [htask]
  exact if_pos hcurrent

theorem live_complete {task : TimerTask} (htask : s.timers[t]? = some task)
    (hcurrent : s.current = some t) : (s.complete t).Live key t' ↔ t' ≠ t ∧ s.Live key t' := by
  rw [complete_eq htask hcurrent]
  simp only [Live, List.getElem?_modify]
  by_cases ht : t = t'
  · subst ht
    simp [htask, TimerTask.Live]
  · simp [ht, eq_comm]

namespace Inv

theorem live_unique (h : s.Inv) (ht : s.Live key t) (ht' : s.Live key t') : t = t' :=
  Option.some.inj (((h.entry key t).mpr ht).symm.trans ((h.entry key t').mpr ht'))

theorem cancelText (h : s.Inv) (skey : String) : (s.cancelText skey).Inv := by
  constructor
  · intro key t
    rw [get?_cancelText]
    have hlive : (s.cancelText skey).Live key t ↔ key ≠ skey ∧ s.Live key t := by
      unfold Live
      rw [timers_cancelText]
      by_cases ht : s.tasks.get? skey = some t
      · -- the registered timer is live no more, and was of this key
        obtain ⟨task, htask, hkey, hlive⟩ := (h.entry skey t).mp ht
        rw [if_pos ht]
        refine iff_of_false ?_ ?_
        · rintro ⟨task', heq, _, hl, _⟩
          rw [htask] at heq
          cases heq
          simp [TimerTask.cancel, hlive.2] at hl
        · rintro ⟨hne, task', htask', hkey', _⟩
          obtain rfl : task = task' := Option.some.inj (htask.symm.trans htask')
          exact hne (hkey'.symm.trans hkey)
      · rw [if_neg ht]
        refine ⟨fun hl => ⟨?_, hl⟩, And.right⟩
        rintro rfl
        exact ht ((h.entry key t).mpr hl)
    rw [hlive, ← h.entry key t]
    by_cases hkey : key = skey <;> simp [hkey]
  · intro t ht
    rw [current_cancelText] at ht
    obtain ⟨task, htask, hphase⟩ := h.running t ht
    rw [timers_cancelText, htask]
    split
    · exact ⟨_, rfl, by simp [TimerTask.cancel, hphase]⟩
    · exact ⟨task, rfl, hphase⟩

theorem schedule (h : s.Inv) (key : Option K) : (s.schedule str key).Inv := by
  have hs := h.cancelText (keyText str key)
  have hnone : ∀ t, ¬ (s.cancelText (keyText str key)).Live (keyText str key) t := by
    intro t ht
    have hget := (hs.entry _ t).mpr ht
    rw [get?_cancelText, if_pos rfl] at hget
    cases hget
  generalize hs' : s.cancelText (keyText str key) = s' at hs hnone
  have heq : s.schedule str key = { s' with
      timers := s'.timers ++ [{ key := keyText str key }]
      tasks := s'.tasks.set (keyText str key) s'.timers.length } := by
    rw [← hs']
    rfl
  rw [heq]
  have hnew : ∀ t task, (s'.timers ++ [{ key := keyText str key }])[t]? = some task ↔
      s'.timers[t]? = some task ∨ t = s'.timers.length ∧ { key := keyText str key } = task := by
    intro t task
    rcases Nat.lt_trichotomy t s'.timers.length with hlt | rfl | hgt
    · rw [List.getElem?_append_left hlt]
      have : t ≠ s'.timers.length := by omega
      simp [this]
    · simp
    · rw [List.getElem?_eq_none (by simp; omega), List.getElem?_eq_none (by omega)]
      have : t ≠ s'.timers.length := by omega
      simp [this]
  constructor
  · intro key' t
    have hlive : Live { s' with
        timers := s'.timers ++ [{ key := keyText str key }]
        tasks := s'.tasks.set (keyText str key) s'.timers.length } key' t ↔
        s'.Live key' t ∨ t = s'.timers.length ∧ keyText str key = key' := by
      simp only [Live, hnew, or_and_right, exists_or]
      refine or_congr_right ?_
      constructor
      · rintro ⟨_, ⟨ht, rfl⟩, hkey, _⟩
        exact ⟨ht, hkey⟩
      · rintro ⟨ht, hkey⟩
        exact ⟨_, ⟨ht, rfl⟩, hkey, rfl, by simp⟩
    rw [hlive, Dict.get?_set]
    by_cases hkey : key' = keyText str key
    · subst hkey
      rw [if_pos rfl]
      simp [hnone, eq_comm]
    · rw [if_neg hkey, hs.entry key' t]
      have hkey' : keyText str key ≠ key' := fun h => hkey h.symm
      simp [hkey']
  · intro t ht
    obtain ⟨task, htask, hphase⟩ := hs.running t ht
    exact ⟨task, (hnew t task).mpr (.inl htask), hphase⟩

theorem wake (h : s.Inv) (t : Nat) : (s.wake t).Inv := by
  unfold GraceScheduler.wake
  split
  · rename_i task _ htask
    constructor
    · intro key t'
      exact (h.entry key t').trans (live_modify rfl fun task _ => live_wake task).symm
    · intro t' ht'
      split at ht'
      · rename_i hacting
        cases ht'
        exact ⟨task.wake, by simp [htask], hacting⟩
      · cases ht'
  · exact h

theorem expire (h : s.Inv) (t : Nat) : (s.expire t).Inv := by
  unfold GraceScheduler.expire
  split
  · rename_i hcurrent
    constructor
    · intro key t'
      exact (h.entry key t').trans (live_modify rfl fun task _ => live_expire task).symm
    · intro t' ht'
      rw [show s.current = some t' from ht'] at hcurrent
      cases hcurrent
  · exact h

theorem suspend (h : s.Inv) (t : Nat) : (s.suspend t).Inv := by
  unfold GraceScheduler.suspend
  split
  · rename_i hcurrent
    constructor
    · intro key t'
      refine (h.entry key t').trans (live_modify
        (f := fun task => { task with phase := .suspended }) rfl fun task htask => ⟨rfl, ?_⟩).symm
      obtain ⟨task', htask', hphase⟩ := h.running t hcurrent
      obtain rfl : task = task' := Option.some.inj (htask.symm.trans htask')
      simp [TimerTask.Live, hphase]
    · intro t' ht'
      cases ht'
  · exact h

theorem complete (h : s.Inv) (t : Nat) (hok : Undisturbed s (.complete (K := K) t)) :
    (s.complete t).Inv := by
  by_cases hcurrent : s.current = some t
  · obtain ⟨task, htask, _⟩ := h.running t hcurrent
    constructor
    · intro key t'
      rw [live_complete htask hcurrent, complete_eq htask hcurrent, Dict.get?_pop]
      by_cases hkey : key = task.key
      · rw [if_pos hkey]
        refine iff_of_false (by simp) ?_
        rintro ⟨hne, hl⟩
        rw [hkey] at hl
        exact hne (hok t task t' rfl hcurrent htask ((h.entry _ t').mpr hl))
      · rw [if_neg hkey, h.entry key t']
        refine ⟨fun hl => ⟨?_, hl⟩, And.right⟩
        rintro rfl
        obtain ⟨task', htask', hkey', _⟩ := hl
        obtain rfl : task = task' := Option.some.inj (htask.symm.trans htask')
        exact hkey hkey'.symm
    · intro t' ht'
      rw [complete_eq htask hcurrent] at ht'
      cases ht'
  · have heq : s.complete t = s := by
      unfold GraceScheduler.complete
      split
      · rfl
      · rw [if_neg hcurrent]
    rw [heq]
    exact h

end Inv

/-- The step lemma. -/
theorem Inv.step (h : s.Inv) (e : Event K) (hok : Undisturbed s e) : (s.step str e).Inv := by
  cases e with
  | schedule key => exact h.schedule key
  | cancel key =>
    cases key with
    | none => exact h
    | some key => exact h.cancelText (str key)
  | wake t => exact h.wake t
  | expire t => exact h.expire t
  | suspend t => exact h.suspend t
  | complete t => exact h.complete t hok

/-- Every state of an undisturbed run. -/
theorem inv_run {es : List (Event K)} (h : Along (step str) Undisturbed {} es) :
    (run str es).Inv := by
  refine h.inv (fun s e hs hok => hs.step e hok) ?_
  constructor
  · intro key t
    refine iff_of_false (by simp [Dict.get?]) ?_
    rintro ⟨task, htask, _⟩
    cases htask
  · intro t ht
    cases ht

/-! ## What a cancelled timer can still do -/

/-- The timer was cancelled before its action started. -/
structure Silent (s : GraceScheduler) (t : Nat) : Prop where
  current : s.current ≠ some t
  task : ∃ task, s.timers[t]? = some task ∧ task.cancelled = true ∧ ¬ task.Started

/-- The action of the timer has started and not ended. -/
def Started (s : GraceScheduler) (t : Nat) : Prop := ∃ task, s.timers[t]? = some task ∧ task.Started

theorem Silent.not_started (h : s.Silent t) : ¬ s.Started t := by
  obtain ⟨task, htask, _, hnot⟩ := h.task
  rintro ⟨task', htask', hstarted⟩
  obtain rfl : task = task' := Option.some.inj (htask.symm.trans htask')
  exact hnot hstarted

/-- A task that is changed in a silent way, if it is this one. -/
theorem Silent.modify (h : s.Silent t) {s' : GraceScheduler} {f : TimerTask → TimerTask}
    (htimers : s'.timers = s.timers.modify t' f) (hcurrent : s'.current ≠ some t)
    (hf : t' = t → ∀ task : TimerTask, task.cancelled = true → ¬ task.Started →
      (f task).cancelled = true ∧ ¬ (f task).Started) : s'.Silent t := by
  obtain ⟨task, htask, hcancelled, hnot⟩ := h.task
  refine ⟨hcurrent, ?_⟩
  rw [htimers, List.getElem?_modify, htask]
  by_cases ht : t' = t
  · exact ⟨f task, by simp [ht], hf ht task hcancelled hnot⟩
  · exact ⟨task, by simp [ht], hcancelled, hnot⟩

theorem silent_cancel (task : TimerTask) (hcancelled : task.cancelled = true)
    (hnot : ¬ task.Started) : task.cancel.cancelled = true ∧ ¬ task.cancel.Started := by
  unfold TimerTask.cancel
  split
  · exact ⟨hcancelled, hnot⟩
  · exact ⟨rfl, hnot⟩

theorem silent_wake (task : TimerTask) (hcancelled : task.cancelled = true)
    (hnot : ¬ task.Started) : task.wake.cancelled = true ∧ ¬ task.wake.Started := by
  rcases task with ⟨key, phase, cancelled⟩
  cases phase <;> simp_all [TimerTask.wake, TimerTask.Started]

theorem silent_expire (task : TimerTask) (hcancelled : task.cancelled = true)
    (hnot : ¬ task.Started) : task.expire.cancelled = true ∧ ¬ task.expire.Started := by
  rw [TimerTask.expire, if_neg (by simp [hcancelled])]
  exact ⟨hcancelled, hnot⟩

theorem Silent.cancelText (h : s.Silent t) (skey : String) : (s.cancelText skey).Silent t := by
  unfold GraceScheduler.cancelText
  split
  · exact h
  · exact h.modify rfl h.current fun _ => silent_cancel

theorem Silent.push (h : s.Silent t) (timer : TimerTask) (tasks : Dict Nat) :
    Silent { s with timers := s.timers ++ [timer], tasks := tasks } t := by
  obtain ⟨task, htask, hsilent⟩ := h.task
  refine ⟨h.current, task, ?_, hsilent⟩
  have hlt := (List.getElem?_eq_some_iff.mp htask).1
  show (s.timers ++ [timer])[t]? = some task
  rw [List.getElem?_append_left hlt]
  exact htask

/-- A timer that was cancelled before its action started does not start it. -/
theorem Silent.step (h : s.Silent t) (e : Event K) : (s.step str e).Silent t := by
  cases e with
  | schedule key => exact (h.cancelText (keyText str key)).push _ _
  | cancel key =>
    cases key with
    | none => exact h
    | some key => exact h.cancelText (str key)
  | wake t' =>
    show (s.wake t').Silent t
    unfold wake
    split
    · rename_i task hcurrent htask
      refine h.modify rfl ?_ fun _ => silent_wake
      obtain ⟨task', htask', hcancelled, hnot⟩ := h.task
      show (if task.wake.phase = .acting then some t' else none) ≠ some t
      split
      · rename_i hacting
        intro ht
        cases ht
        obtain rfl : task = task' := Option.some.inj (htask.symm.trans htask')
        exact (silent_wake task hcancelled hnot).2 (.inl hacting)
      · simp
    · exact h
  | expire t' =>
    show (s.expire t').Silent t
    unfold expire
    split
    · exact h.modify rfl h.current fun _ => silent_expire
    · exact h
  | suspend t' =>
    show (s.suspend t').Silent t
    unfold suspend
    split
    · rename_i hcurrent
      refine h.modify rfl (by simp) fun ht => ?_
      exact absurd (ht ▸ hcurrent) h.current
    · exact h
  | complete t' =>
    show (s.complete t').Silent t
    unfold complete
    split
    · exact h
    · split
      · rename_i hcurrent
        refine h.modify rfl (by simp) fun ht => ?_
        exact absurd (ht ▸ hcurrent) h.current
      · exact h

/-- `cancel` reaches every timer of the key that has not finished. -/
theorem Inv.cancelled_of_cancelText (h : s.Inv) {task : TimerTask}
    (htask : s.timers[t]? = some task) (hdone : task.phase ≠ .done) :
    ∃ task', (s.cancelText task.key).timers[t]? = some task' ∧ task'.cancelled = true ∧
      task'.phase = task.phase := by
  rw [timers_cancelText, htask]
  by_cases hcancelled : task.cancelled = true
  · split
    · exact ⟨_, rfl, by simp [TimerTask.cancel, hdone], by simp [TimerTask.cancel, hdone]⟩
    · exact ⟨task, rfl, hcancelled, rfl⟩
  · have hlive : s.Live task.key t := ⟨task, htask, rfl, by simpa using hcancelled, hdone⟩
    rw [if_pos ((h.entry _ t).mpr hlive)]
    exact ⟨_, rfl, by simp [TimerTask.cancel, hdone], by simp [TimerTask.cancel, hdone]⟩

/-! ## Keyed timers -/

/-- The call cancels or re-schedules the timer of this key. -/
def Event.Supersedes (str : K → String) (key : String) : Event K → Prop
  | .schedule k => keyText str k = key
  | .cancel (some k) => str k = key
  | _ => False

/-- The most recently scheduled timer of the key that has neither been cancelled nor finished. -/
def Latest (s : GraceScheduler) (key : String) (t : Nat) : Prop :=
  s.Live key t ∧ ∀ t', s.Live key t' → t' ≤ t

/-- What keyed timers promise, along a run. -/
structure Keyed (str : K → String) (es : List (Event K)) : Prop where
  entry : ∀ pre, pre <+: es → ∀ key t,
    (run str pre).tasks.get? key = some t ↔ (run str pre).Latest key t
  silent : ∀ pre call post, pre ++ call :: post <+: es → ∀ (t : Nat) (task : TimerTask),
    (run str pre).timers[t]? = some task → task.Unexpired → call.Supersedes str task.key →
      ¬ (run str (pre ++ call :: post)).Started t
  stops : ∀ pre key, pre ++ [.cancel (some key)] <+: es → ∀ (t : Nat) (task : TimerTask),
    (run str pre).timers[t]? = some task → task.key = str key → task.phase ≠ .done →
      ∃ task' : TimerTask, (run str (pre ++ [.cancel (some key)])).timers[t]? = some task' ∧
        task'.cancelled = true

theorem Inv.latest_iff (h : s.Inv) : s.tasks.get? key = some t ↔ s.Latest key t := by
  rw [h.entry]
  exact ⟨fun ht => ⟨ht, fun t' ht' => Nat.le_of_eq (h.live_unique ht' ht)⟩, And.left⟩

theorem run_snoc (es : List (Event K)) (e : Event K) :
    run str (es ++ [e]) = (run str es).step str e := by
  simp [run, List.foldl_append]

/-- A timer whose key is cancelled or re-scheduled before its delay has expired is silenced. -/
theorem Inv.silenced (h : s.Inv) {call : Event K} {task : TimerTask}
    (htask : s.timers[t]? = some task) (hwaits : task.Unexpired)
    (hcall : call.Supersedes str task.key) : (s.step str call).Silent t := by
  have hdone : task.phase ≠ .done := by
    rcases hwaits with hphase | hphase <;> simp [hphase]
  have hidle : ∀ task' : TimerTask, task'.phase = task.phase → ¬ task'.Started := by
    intro task' heq
    rcases hwaits with hphase | hphase <;> simp [TimerTask.Started, heq, hphase]
  have hsilent : (s.cancelText task.key).Silent t := by
    obtain ⟨task', htask', hcancelled, hphase⟩ := h.cancelled_of_cancelText htask hdone
    refine ⟨?_, task', htask', hcancelled, hidle task' hphase⟩
    rw [current_cancelText]
    intro hcurrent
    obtain ⟨task'', htask'', hacting⟩ := h.running t hcurrent
    obtain rfl : task = task'' := Option.some.inj (htask.symm.trans htask'')
    exact hidle task rfl (.inl hacting)
  cases call with
  | schedule k =>
    rw [← show keyText str k = task.key from hcall] at hsilent
    exact hsilent.push _ _
  | cancel k =>
    cases k with
    | none => exact hcall.elim
    | some k =>
      rw [← show str k = task.key from hcall] at hsilent
      exact hsilent
  | _ => exact hcall.elim

theorem Silent.steps (h : s.Silent t) (es : List (Event K)) :
    (es.foldl (GraceScheduler.step str) s).Silent t := by
  induction es generalizing s with
  | nil => exact h
  | cons e es ih => exact ih (h.step e)

/-- **Keyed timers never misfire** in the runs in which no action ends while a newer timer of its
key is registered, and in no others is the registry exact. -/
theorem keyed_timers {str : K → String} {es : List (Event K)} :
    Keyed str es ↔ Along (step str) Undisturbed {} es := by
  constructor
  · intro h
    have hentry := h.entry
    clear h
    induction es using List.reverseRecOn with
    | nil => trivial
    | append_singleton es e ih =>
      refine along_append.mpr ⟨ih fun pre hpre => hentry pre (hpre.trans (List.prefix_append _ _)),
        ?_, trivial⟩
      -- a newer timer that is registered when an action ends is live, but registered no more
      rintro t task t' rfl hcurrent htask hget
      by_contra hne
      have hcurrent : (run str es).current = some t := hcurrent
      have htask : (run str es).timers[t]? = some task := htask
      have hlatest := (hentry es (List.prefix_append _ _) task.key t').mp hget
      have hafter := hentry (es ++ [.complete t]) (List.prefix_refl _) task.key t'
      rw [run_snoc] at hafter
      have hget' : ((run str es).complete t).tasks.get? task.key = some t' := by
        refine hafter.mpr ⟨(live_complete htask hcurrent).mpr ⟨hne, hlatest.1⟩, fun t'' ht'' => ?_⟩
        exact hlatest.2 t'' ((live_complete htask hcurrent).mp ht'').2
      rw [complete_eq htask hcurrent, Dict.get?_pop, if_pos rfl] at hget'
      cases hget'
  · intro h
    have hinv : ∀ pre, pre <+: es → (run str pre).Inv := fun pre hpre => inv_run (h.of_prefix hpre)
    refine ⟨fun pre hpre key t => (hinv pre hpre).latest_iff, ?_, ?_⟩
    · intro pre call post hpre t task htask hwaits hcall
      have hs := hinv pre ((List.prefix_append _ _).trans hpre)
      have hrun : run str (pre ++ call :: post) =
          post.foldl (step str) ((run str pre).step str call) := by
        simp [run, List.foldl_append]
      rw [hrun]
      exact ((hs.silenced htask hwaits hcall).steps post).not_started
    · intro pre key hpre t task htask hkey hdone
      have hs := hinv pre ((List.prefix_append _ _).trans hpre)
      obtain ⟨task', htask', hcancelled, _⟩ := hs.cancelled_of_cancelText htask hdone
      refine ⟨task', ?_, hcancelled⟩
      rw [run_snoc]
      rw [hkey] at htask'
      exact htask'

/-- A timer that is scheduled while the action of an older one still runs. The older one removes
its entry, `cancel` finds nothing, and its action starts all the same. -/
def overtaken : List (Event String) :=
  [.schedule (some "7"), .wake 0, .expire 0, .wake 0, .suspend 0, .schedule (some "7"), .wake 0,
    .complete 0, .cancel (some "7"), .wake 1, .expire 1, .wake 1]

theorem cancelled_timer_fires : ¬ Keyed id overtaken := by
  intro h
  have hnew : (run id (overtaken.take 8)).timers[1]? = some { key := "7" } := rfl
  have hfires : (run id overtaken).timers[1]? = some { key := "7", phase := .acting } := rfl
  exact h.silent (overtaken.take 8) (.cancel (some "7")) (overtaken.drop 9) (List.prefix_refl _) 1
    { key := "7" } hnew (.inl rfl) rfl ⟨_, hfires, .inl rfl⟩

end GraceScheduler
end Rekuest
