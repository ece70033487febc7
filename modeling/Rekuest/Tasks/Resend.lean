import Rekuest.Tasks.Reports

/-!
# Rekuest.Tasks.Resend

Reports that are delivered again, with the handlers run one at a time.

* `AbsorbsResends`: a terminal report for a task that is done, a resend or another one, changes
  nothing for the rest of the run; the first terminal transition wins, and it is final.
* `terminal_reports_absorbed`: so it is for every task that is no higher-order wrapper.
* `Harmless`: a replayed Started, Paused or Resumed changes nothing.
* `confirmation_replay_harmless_iff`: it does so exactly where the task is done or unknown.
-/

namespace Rekuest
namespace Resend

open Interleave Interleave.Prog

variable {S : Settings} {t : TaskId} {w w' : World}

/-! ## The database decides -/

/-- Answers and writes depend on the database alone, not on queues and timers. -/
theorem exec_db_congr {i : Input} {c : Stmt} (h : w.db = w'.db) :
    (exec S i c w).1 = (exec S i c w').1 ∧
      (exec S i c w).2.db = (exec S i c w').2.db := by
  cases c with
  | read q => exact ⟨by show q.eval S i w.db = _; rw [h]; rfl, h⟩
  | lease c => simp only [exec, h, and_self]
  | agent c => simp only [exec, h, and_self]
  | getOrCreateCaller identity =>
    simp only [exec, h]
    cases w'.db.callerOf? identity with
    | none => exact ⟨rfl, rfl⟩
    | some id => exact ⟨rfl, h⟩
  | task c => simp only [exec, h, and_self]
  | state c => simp only [exec, h, and_self]
  | deliver c => exact ⟨rfl, by rw [exec_deliver_db, exec_deliver_db, h]⟩
  | timer c => exact ⟨rfl, by rw [exec_timer_db, exec_timer_db, h]⟩

theorem runAll_db_congr {κ : Type} {code : κ → Handler Unit}
    {calls : List (κ × (Nat → Input))} (h : w.db = w'.db) :
    (runAll S code w calls).db = (runAll S code w' calls).db := by
  induction calls generalizing w w' with
  | nil => exact h
  | cons c calls ih =>
    exact ih (run_rel (exec S) c.2 w (R := fun w w' => w.db = w'.db)
      (fun _ _ _ _ h => exec_db_congr h) (code c.1) h).2

/-! ## Terminal reports -/

def Done (t : TaskId) (db : Database) : Prop :=
  ∃ task, db.tasks.get t = some task ∧ task.isDone = true

/-- The effect of a report call on the database. -/
theorem report_db (S : Settings) (w : World) (server : ServerId) (r : Report) (i : Nat → Input) :
    ∃ now now', (runAlone S ((TaskCall.report (.report server r)).code S) i w).db =
      w.db.afterReport r now now' := by
  have hwp : wp (exec S) anyStep ((TaskCall.report (.report server r)).code S)
      (fun _ w' => ∃ now now', w'.db = w.db.afterReport r now now') w := by
    refine wp_bind.mpr (wp_mono ?_ PersistBackend.wp_onReport)
    rintro (e | a) w' h <;> exact h
  exact wp_run hwp meets_any

theorem silent_db (S : Settings) (w : World) (id : TaskId) (i : Nat → Input) :
    ∃ now, (runAlone S ((TaskCall.report (.silent id)).code S) i w).db =
      w.db.whenOpen id fun db =>
        db.finish id .critical (some PersistBackend.silentMessage) now := by
  have hwp : wp (exec S) anyStep ((TaskCall.report (.silent id)).code S) _ w :=
    PersistBackend.wp_reconcileSilentPhysicalOp
  exact wp_run hwp meets_any

/-- A terminal report for a done task leaves the database as it is. -/
theorem afterReport_of_done {db : Database} {r : Report} {now now' : Time}
    (hr : r.kind.outcome.isSome = true) (hd : Done r.task db) :
    db.afterReport r now now' = db := by
  obtain ⟨task, hg, hdone⟩ := hd
  obtain ⟨⟨kind, message⟩, ho⟩ := Option.isSome_iff_exists.mp hr
  rw [Database.afterReport_of_outcome ho]
  exact Database.whenOpen_of_done hg hdone

/-- A terminal report for a task that is there leaves it done. -/
theorem done_afterReport {db : Database} {r : Report} (now now' : Time)
    (hr : r.kind.outcome.isSome = true) (hthere : (db.tasks.get r.task).isSome = true) :
    Done r.task (db.afterReport r now now') := by
  obtain ⟨task, hg⟩ := Option.isSome_iff_exists.mp hthere
  cases hd : task.isDone with
  | true => rw [afterReport_of_done hr ⟨task, hg, hd⟩]; exact ⟨task, hg, hd⟩
  | false =>
    obtain ⟨⟨kind, message⟩, ho⟩ := Option.isSome_iff_exists.mp hr
    rw [Database.afterReport_of_outcome ho, Database.whenOpen_of_open hg hd]
    have hrow : (db.finish r.task kind message now).tasks.get r.task = some
        (TaskUpdate.apply { latestEventKind := some kind, done := true } now task) :=
      Database.get_saveTask_self.trans (by rw [Database.record_tasks, hg]; rfl)
    obtain ⟨task', hg', he⟩ := Database.evolves_mirror.tasks hrow
    exact ⟨task', hg', he.done (by simp [TaskUpdate.apply])⟩

/-- The first terminal report of a plain task decides its kind. -/
theorem kind_afterReport {db : Database} {r : Report} (now now' : Time) {kind : TaskEventKind}
    {message : Option EventText} (hp : Plain r.task db) (hr : r.kind.outcome = some (kind, message))
    (hd : ¬ Done r.task db) :
    ∃ task, (db.afterReport r now now').tasks.get r.task = some task ∧ task.isDone = true ∧
      task.latestEventKind = kind := by
  obtain ⟨task, hg, _⟩ := id hp
  have hopen : task.isDone = false := by
    by_contra hne
    exact hd ⟨task, hg, by simpa using hne⟩
  rw [Database.afterReport_of_outcome hr, Database.whenOpen_of_open hg hopen,
    Database.get_mirror (hp.evolves Database.evolves_finish)]
  refine ⟨_, Database.get_saveTask_self.trans (by rw [Database.record_tasks, hg]; rfl), ?_, ?_⟩
  · simp [TaskUpdate.apply]
  · rfl

/-! ## Done rows over runs -/

/-- The handlers of a connection leave a done row alone: the cascade claims under a lock. -/
theorem doneRow_built {ok : Input → Stmt → World → Prop} {task : Task}
    (hd : task.isDone = true) :
    PersistBackend.Built fun _ p =>
      Keeps (exec S) ok (fun w : World => w.db.tasks.get t = some task) p where
  toCompositional := Keeps.compositional
  read _ := Keeps.issue fun _ _ _ h => h
  timer _ := Keeps.issue fun _ _ _ h => get_exec_of_done nofun h hd
  send _ _ := Keeps.issue fun _ _ _ h => get_exec_of_done nofun h hd
  caller _ := Keeps.issue fun _ _ _ h => get_exec_of_done nofun h hd
  claim _ _ _ _ := Keeps.issue fun _ _ _ h => get_exec_of_done nofun h hd
  revoke _ := Keeps.issue fun _ _ _ h => get_exec_of_done nofun h hd
  cascade _ _ := PersistBackend.orphanCascade_built Keeps.compositional
    (Keeps.issue fun _ _ _ h => h) fun _ => PersistBackend.failAndCascade_issues.keeps
      fun _ c _ hc _ h => get_exec_of_done (by rintro u rfl; exact hc.elim) h hd

/-- One call leaves the row of a plain task that is done alone. -/
theorem doneRow_call {c : TaskCall} {i : Nat → Input} {task : Task} (hp : Plain t w.db)
    (hg : w.db.tasks.get t = some task) (hd : task.isDone = true) :
    (runAlone S (c.code S) i w).db.tasks.get t = some task := by
  cases c with
  | connection c =>
    have hkeeps : Keeps (exec S) anyStep (fun w : World => w.db.tasks.get t = some task)
        (c.code S) :=
      (doneRow_built hd).connectionCall
        (fun _ _ _ => Keeps.issue fun _ _ _ h => get_exec_of_done nofun h hd)
        fun _ _ _ _ => (doneRow_built hd).sweeps.onAgentDisconnected
          (Keeps.issue fun _ _ _ h => get_exec_of_done nofun h hd)
    exact hkeeps.run hg meets_any
  | report c =>
    cases c with
    | report server r =>
      obtain ⟨now, now', hdb⟩ := report_db S w server r i
      rw [hdb]
      exact Database.get_afterReport_of_done hp hg hd
    | silent id =>
      obtain ⟨now, hdb⟩ := silent_db S w id i
      rw [hdb]
      refine Database.whenOpen_cases (fun db => db.tasks.get t = some task) hg fun x hx hxd => ?_
      refine (Database.get_saveTask_of_ne ?_).trans hg
      rintro rfl
      cases hg.symm.trans hx
      rw [hd] at hxd
      cases hxd

theorem doneRow_run {calls : List (TaskCall × (Nat → Input))} {task : Task} (hp : Plain t w.db)
    (hg : w.db.tasks.get t = some task) (hd : task.isDone = true) :
    (runAll S (TaskCall.code S) w calls).db.tasks.get t = some task := by
  induction calls generalizing w with
  | nil => exact hg
  | cons c calls ih =>
    exact ih (hp.evolves (runAlone_evolves _ _ _)) (doneRow_call hp hg hd)

/-- A terminal report for the task is among the calls. -/
def Handled (t : TaskId) (calls : List (TaskCall × (Nat → Input))) : Prop :=
  ∃ server r i, (TaskCall.report (.report server r), i) ∈ calls ∧ r.task = t ∧
    r.kind.outcome.isSome = true

theorem done_of_handled {calls : List (TaskCall × (Nat → Input))} (hp : Plain t w.db)
    (h : Handled t calls) : Done t (runAll S (TaskCall.code S) w calls).db := by
  obtain ⟨server, r, i, hmem, rfl, hr⟩ := h
  obtain ⟨before, after, rfl⟩ := List.append_of_mem hmem
  rw [runAll_append, runAll_cons]
  generalize hu : runAll S (TaskCall.code S) w before = u
  have hpu : Plain r.task u.db := hu ▸ hp.evolves runAll_evolves
  obtain ⟨now, now', hdb⟩ := report_db S u server r i
  obtain ⟨task, hg, _⟩ := id hpu
  have hdone := done_afterReport now now' hr (by rw [hg]; rfl)
  rw [← hdb] at hdone
  obtain ⟨task', hg', hd⟩ := hdone
  exact ⟨task', doneRow_run (hpu.evolves (runAlone_evolves _ _ _)) hg' hd, hd⟩

/-- The claim on a world: a terminal report for a task that is done, or for which one was handled
before, changes neither table at the end of any run; the first terminal report decides; and a
done row stays as it is. -/
structure AbsorbsResends (S : Settings) (t : TaskId) (w : World) : Prop where
  absorbed : ∀ before after server r i, r.task = t → r.kind.outcome.isSome = true →
    Handled t before ∨ Done t (runAll S (TaskCall.code S) w before).db →
    let resent := runAll S (TaskCall.code S) w
      (before ++ (TaskCall.report (.report server r), i) :: after)
    let once := runAll S (TaskCall.code S) w (before ++ after)
    resent.db.tasks = once.db.tasks ∧ resent.db.events = once.db.events
  firstWins : ∀ before after server r i kind message, r.task = t →
    r.kind.outcome = some (kind, message) →
    ¬ Done t (runAll S (TaskCall.code S) w before).db →
    ∃ task, (runAll S (TaskCall.code S) w
      (before ++ (TaskCall.report (.report server r), i) :: after)).db.tasks.get t = some task ∧
      task.isDone = true ∧ task.latestEventKind = kind
  final : ∀ before after task,
    (runAll S (TaskCall.code S) w before).db.tasks.get t = some task → task.isDone = true →
    (runAll S (TaskCall.code S) w (before ++ after)).db.tasks.get t = some task

/-- **Terminal reports may be delivered any number of times.** -/
theorem terminal_reports_absorbed (S : Settings) (t : TaskId) (w : World) (hp : Plain t w.db) :
    AbsorbsResends S t w := by
  refine ⟨?_, ?_, ?_⟩
  · rintro before after server r i rfl hr h
    have hdone : Done r.task (runAll S (TaskCall.code S) w before).db :=
      h.elim (done_of_handled hp) id
    have hsame : (runAll S (TaskCall.code S) w
        (before ++ (TaskCall.report (.report server r), i) :: after)).db =
          (runAll S (TaskCall.code S) w (before ++ after)).db := by
      rw [runAll_append, runAll_append, runAll_cons]
      refine runAll_db_congr ?_
      obtain ⟨now, now', hdb⟩ := report_db S (runAll S (TaskCall.code S) w before) server r i
      rw [hdb, afterReport_of_done hr hdone]
    exact ⟨by rw [hsame], by rw [hsame]⟩
  · rintro before after server r i kind message rfl hr hd
    rw [runAll_append, runAll_cons]
    generalize hu : runAll S (TaskCall.code S) w before = u
    have hpu : Plain r.task u.db := hu ▸ hp.evolves runAll_evolves
    obtain ⟨now, now', hdb⟩ := report_db S u server r i
    obtain ⟨task, hg, hdone, hkind⟩ :=
      kind_afterReport now now' hpu hr (hu ▸ hd)
    rw [← hdb] at hg
    exact ⟨task, doneRow_run (hpu.evolves (runAlone_evolves _ _ _)) hg hdone, hdone, hkind⟩
  · intro before after task hg hd
    rw [runAll_append]
    exact doneRow_run (hp.evolves runAll_evolves) hg hd

theorem terminal_reports_absorbed_running : AbsorbsResends {} 1 (runningWorld .none) :=
  terminal_reports_absorbed {} 1 (runningWorld .none) plain_runningWorld

/-! ## Confirmations -/

/-- Handling the report once more. -/
def replay (S : Settings) (w : World) (server : ServerId) (r : Report) (i : Nat → Input) : World :=
  runAlone S ((TaskCall.report (.report server r)).code S) i w

/-- The claim on a replay that leads from `w` to `w'`: the kind of the task and the events are as
they were, and so is the progress lease of a task that still runs. -/
structure Harmless (server : ServerId) (t : TaskId) (w w' : World) : Prop where
  kind : (w'.db.tasks.get t).map (·.latestEventKind) = (w.db.tasks.get t).map (·.latestEventKind)
  events : w'.db.events.Perm w.db.events
  lease : ∀ task, w.db.tasks.get t = some task → task.isDone = false →
    w'.timers server .progressLeases t = w.timers server .progressLeases t

/-- The task is done, or there is none. -/
def NotOpen (t : TaskId) (db : Database) : Prop :=
  ∀ task ∈ db.tasks.get t, task.isDone = true

instance (t : TaskId) (db : Database) : Decidable (NotOpen t db) :=
  inferInstanceAs (Decidable (∀ task ∈ db.tasks.get t, task.isDone = true))

/-- **A replayed confirmation is harmless** exactly where its task is done or unknown: nothing
recognises the report as one that was handled before. -/
theorem confirmation_replay_harmless_iff (S : Settings) (w : World)
    (before between : List (TaskCall × (Nat → Input))) (server server' : ServerId) (r : Report)
    (i i' : Nat → Input) (hr : r.kind.confirmation.isSome = true) :
    let u := runAll S (TaskCall.code S) w
      (before ++ (TaskCall.report (.report server r), i) :: between)
    Harmless server' r.task u (replay S u server' r i') ↔ NotOpen r.task u.db := by
  intro u
  obtain ⟨kind, hc⟩ := Option.isSome_iff_exists.mp hr
  obtain ⟨now, now', hdb⟩ : ∃ now now', (replay S u server' r i').db = _ := report_db S u server' r i'
  rw [Database.afterReport_of_confirmation hc] at hdb
  constructor
  · intro h task hg
    by_contra hd
    have hopen : task.isDone = false := by simpa using hd
    have hlen := h.events.length_eq
    rw [hdb, Database.whenOpen_of_open hg hopen] at hlen
    simp [Database.record] at hlen
  · intro h
    have hsame : (replay S u server' r i').db = u.db := by
      rw [hdb]
      refine Database.whenOpen_cases (fun db => db = u.db) rfl fun task hg hd => ?_
      rw [h task hg] at hd
      cases hd
    refine ⟨by rw [hsame], by rw [hsame], fun task hg hd => ?_⟩
    rw [h task hg] at hd
    cases hd

section Late

def paused : Report := { id := 1, task := 1, kind := .paused }

def resumed : Report := { id := 2, task := 1, kind := .resumed }

def completed : Report := { id := 3, task := 1, kind := .completed }

def inputs : Nat → Input := fun _ => default

/-- The world after the reports of the running task, handled one at a time. -/
def afterReports (reports : List Report) : World :=
  runAll {} (TaskCall.code {}) (runningWorld .none)
    (reports.map fun r => (.report (.report 0 r), inputs))

/-- The Paused comes again after the task completed. -/
theorem confirmation_replay_harmless_after_completed :
    Harmless 0 1 (afterReports [paused, completed])
      (replay {} (afterReports [paused, completed]) 0 paused inputs) :=
  (confirmation_replay_harmless_iff {} (runningWorld .none) []
    [(.report (.report 0 completed), inputs)] 0 0 paused inputs inputs rfl).mpr (by decide +kernel)

/-- The Paused comes again after the task resumed: the running task appears paused. -/
theorem late_paused_not_harmless :
    ¬ Harmless 0 1 (afterReports [paused, resumed])
      (replay {} (afterReports [paused, resumed]) 0 paused inputs) := by
  intro h
  have hbefore : ((afterReports [paused, resumed]).db.tasks.get 1).map (·.latestEventKind) =
      some .resumed := by decide +kernel
  have hafter : ((replay {} (afterReports [paused, resumed]) 0 paused inputs).db.tasks.get 1).map
      (·.latestEventKind) = some .paused := by decide +kernel
  cases hafter.symm.trans (h.kind.trans hbefore)

end Late

end Resend
end Rekuest
