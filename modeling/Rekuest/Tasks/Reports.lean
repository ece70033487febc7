import Rekuest.Footprint
import Rekuest.Interleave.Wp
import Rekuest.Tasks.Rows

/-!
# Rekuest.Tasks.Reports

What a report makes of the database when its handler runs alone.

* `Database.record`, `Database.saveTask`, `Database.finish`, `Database.mirror`: the writes.
* `Database.afterReport`: the whole report, a function of the database and two clock readings.
* `wp_onReport`: every run of `onReport` computes it.
-/

namespace Rekuest

open Interleave Interleave.Prog

/-! ## Writes -/

/-- The event that a terminal report records, and its text. -/
def ReportKind.outcome : ReportKind → Option (TaskEventKind × Option EventText)
  | completed => some (.completed, none)
  | cancelled => some (.cancelled, none)
  | interrupted => some (.interrupted, none)
  | failed error => some (.failed, some error)
  | critical error => some (.critical, some error)
  | _ => none

/-- The event that a non-terminal confirmation records. -/
def ReportKind.confirmation : ReportKind → Option TaskEventKind
  | started => some .started
  | paused => some .paused
  | resumed => some .resumed
  | _ => none

def ReportKind.isYield : ReportKind → Bool
  | .yield _ => true
  | _ => false

theorem ReportKind.outcome_terminal {r : ReportKind} {kind : TaskEventKind}
    {message : Option EventText} (h : r.outcome = some (kind, message)) :
    kind.isTerminal = true := by
  cases r <;> simp_all [ReportKind.outcome] <;> (obtain ⟨rfl, _⟩ := h; rfl)

namespace Database

variable (db : Database)

def record (event : TaskEvent) : Database := { db with events := db.events ++ [event] }

def saveTask (id : TaskId) (u : TaskUpdate) (now : Time) : Database :=
  { db with tasks := db.tasks.modify id (u.apply now) }

/-- The event and the save that end a task. -/
def finish (id : TaskId) (kind : TaskEventKind) (message : Option EventText) (now : Time) :
    Database :=
  (db.record { task := id, kind := kind, message := message }).saveTask id
    { latestEventKind := some kind, done := true } now

/-- The wrapper that the events of `child` are mirrored onto. -/
def mirrorTarget (child : TaskId) : Option (TaskId × Implementation) :=
  match db.unfoldSource child with
  | some (some (parent, some impl)) =>
    if impl.higherOrderFor.isSome then some (parent, impl) else none
  | _ => none

/-- The mirrored event and the save of the wrapper. -/
def mirror (child : TaskId) (kind : TaskEventKind) (returns : Option (Dict Json))
    (message : Option EventText) (now : Time) : Database :=
  match db.mirrorTarget child with
  | some (parent, impl) =>
    (db.record (PersistBackend.wrapperEvent impl.higherOrderConfig parent child kind returns
      message)).saveTask parent { latestEventKind := some kind, done := kind.isTerminal } now
  | none => db

/-- `change` where the task is there and open. -/
def whenOpen (id : TaskId) (change : Database → Database) : Database :=
  if (db.tasks.get id).any (!·.isDone) then change db else db

/-- `change` where the task is there. -/
def whenThere (id : TaskId) (change : Database → Database) : Database :=
  if (db.tasks.get id).isSome then change db else db

/-- What a report leaves. The clock is read when the task and when its wrapper is saved. -/
def afterReport (r : Report) (now now' : Time) : Database :=
  match r.kind.outcome with
  | some (kind, message) =>
    db.whenOpen r.task fun db =>
      (db.finish r.task kind message now).mirror r.task kind none message now'
  | none => match r.kind.confirmation with
    | some kind =>
      db.whenOpen r.task fun db =>
        (db.record { task := r.task, kind := kind }).saveTask r.task
          { latestEventKind := some kind } now
    | none =>
      db.whenThere r.task fun db => match r.kind with
        | .yield returns =>
          (db.record { task := r.task, kind := .yield, returns := returns }).mirror r.task .yield
            returns none now'
        | .log message => db.record { task := r.task, kind := .log, message := some message }
        | .progress progress message =>
          db.record { task := r.task, kind := .progress, progress := progress, message := message }
        | _ => db

end Database

/-! ## Rows after the writes -/

namespace Database

variable {db : Database} {t id child : TaskId} {event : TaskEvent} {u : TaskUpdate} {now now' : Time}
  {kind : TaskEventKind} {message : Option EventText} {returns : Option (Dict Json)}

@[simp] theorem record_tasks : (db.record event).tasks = db.tasks := rfl

@[simp] theorem saveTask_events : (db.saveTask id u now).events = db.events := rfl

theorem get_saveTask : (db.saveTask id u now).tasks.get t =
    if t = id then (db.tasks.get t).map (u.apply now) else db.tasks.get t := Table.get_modify

theorem get_saveTask_self : (db.saveTask id u now).tasks.get id =
    (db.tasks.get id).map (u.apply now) := Table.get_modify_self

theorem get_saveTask_of_ne (h : t ≠ id) : (db.saveTask id u now).tasks.get t = db.tasks.get t :=
  Table.get_modify_of_ne h

theorem mirrorTarget_eq {c parent : TaskId} {impl : Implementation} :
    db.mirrorTarget c = some (parent, impl) ↔
      db.unfoldSource c = some (some (parent, some impl)) ∧ impl.higherOrderFor.isSome = true := by
  unfold mirrorTarget
  match db.unfoldSource c with
  | none => exact ⟨nofun, nofun⟩
  | some none => exact ⟨nofun, nofun⟩
  | some (some (parent', none)) => exact ⟨nofun, nofun⟩
  | some (some (parent', some impl')) =>
    constructor
    · intro h
      dsimp only at h
      split at h
      · rename_i hho
        cases h
        exact ⟨rfl, hho⟩
      · cases h
    · rintro ⟨h, hho⟩
      cases h
      exact if_pos hho

theorem mirrorTarget_record {c : TaskId} : (db.record event).mirrorTarget c = db.mirrorTarget c :=
  rfl

/-- A save names none of the columns that the mirroring follows. -/
theorem mirrorTarget_saveTask {c : TaskId} :
    (db.saveTask id u now).mirrorTarget c = db.mirrorTarget c := by
  have hget : ∀ t, (db.saveTask id u now).tasks.get t =
      (db.tasks.get t).map fun row => if t = id then u.apply now row else row := by
    intro t
    rw [get_saveTask]
    split <;> simp
  have hsrc : (db.saveTask id u now).unfoldSource c = db.unfoldSource c := by
    unfold unfoldSource
    simp only [hget, Option.map_map]
    congr 1
    funext row
    have hparent : (if c = id then u.apply now row else row).parent = row.parent := by
      split <;> rfl
    simp only [Function.comp_apply, hparent]
    congr 1
    funext p
    congr 1
    funext prow
    have himpl : (if p = id then u.apply now prow else prow).implementation =
        prow.implementation := by split <;> rfl
    simp only [Function.comp_apply, himpl]
    rfl
  unfold mirrorTarget
  rw [hsrc]

theorem mirrorTarget_finish {c : TaskId} :
    (db.finish id kind message now).mirrorTarget c = db.mirrorTarget c :=
  mirrorTarget_saveTask.trans mirrorTarget_record

theorem evolves_record : db.Evolves (db.record event) := ⟨rfl, rfl, fun h => ⟨_, h, .refl⟩⟩

theorem evolves_saveTask : db.Evolves (db.saveTask id u now) := by
  refine ⟨rfl, rfl, fun {t task} h => ?_⟩
  by_cases ht : t = id
  · subst ht
    exact ⟨_, get_saveTask_self.trans (by rw [h]; rfl), .apply⟩
  · exact ⟨task, (get_saveTask_of_ne ht).trans h, .refl⟩

theorem evolves_finish : db.Evolves (db.finish id kind message now) :=
  evolves_record.trans evolves_saveTask

theorem evolves_mirror : db.Evolves (db.mirror child kind returns message now) := by
  unfold mirror
  split
  · exact evolves_record.trans evolves_saveTask
  · exact .refl

theorem whenOpen_of_done {task : Task} {change : Database → Database}
    (hg : db.tasks.get id = some task) (hd : task.isDone = true) : db.whenOpen id change = db := by
  simp [whenOpen, hg, hd]

theorem whenOpen_of_open {task : Task} {change : Database → Database}
    (hg : db.tasks.get id = some task) (hd : task.isDone = false) :
    db.whenOpen id change = change db := by
  simp [whenOpen, hg, hd]

theorem whenOpen_of_missing {change : Database → Database} (hg : db.tasks.get id = none) :
    db.whenOpen id change = db := by
  simp [whenOpen, hg]

theorem whenThere_of_missing {change : Database → Database} (hg : db.tasks.get id = none) :
    db.whenThere id change = db := by
  simp [whenThere, hg]

theorem whenThere_of_there {change : Database → Database} (hg : (db.tasks.get id).isSome = true) :
    db.whenThere id change = change db :=
  if_pos hg

/-- What holds of the database and of what `change` makes of it. -/
theorem whenOpen_cases (P : Database → Prop) {change : Database → Database} (h : P db)
    (hopen : ∀ task, db.tasks.get id = some task → task.isDone = false → P (change db)) :
    P (db.whenOpen id change) := by
  cases hg : db.tasks.get id with
  | none => rw [whenOpen_of_missing hg]; exact h
  | some task =>
    cases hd : task.isDone with
    | true => rw [whenOpen_of_done hg hd]; exact h
    | false => rw [whenOpen_of_open hg hd]; exact hopen task hg hd

theorem whenThere_cases (P : Database → Prop) {change : Database → Database} (h : P db)
    (hthere : P (change db)) : P (db.whenThere id change) := by
  unfold whenThere
  split
  · exact hthere
  · exact h

/-- Nothing is mirrored onto a plain task. -/
theorem get_mirror (h : Plain t db) :
    (db.mirror child kind returns message now).tasks.get t = db.tasks.get t := by
  unfold mirror mirrorTarget
  match hsrc : db.unfoldSource child with
  | none => rfl
  | some none => rfl
  | some (some (parent, none)) => rfl
  | some (some (parent, some impl)) =>
    cases hho : impl.higherOrderFor with
    | none => simp [hho]
    | some lower =>
      simp only [hho, Option.isSome_some, if_true]
      exact get_saveTask_of_ne (h.ne_parent hsrc (by rw [hho]; rfl)).symm

theorem afterReport_of_outcome {r : Report} (h : r.kind.outcome = some (kind, message)) :
    db.afterReport r now now' = db.whenOpen r.task fun db =>
      (db.finish r.task kind message now).mirror r.task kind none message now' := by
  rw [afterReport, h]

theorem afterReport_of_confirmation {r : Report} (h : r.kind.confirmation = some kind) :
    db.afterReport r now now' = db.whenOpen r.task fun db =>
      (db.record { task := r.task, kind := kind }).saveTask r.task
        { latestEventKind := some kind } now := by
  have ho : r.kind.outcome = none := by
    cases hk : r.kind <;> rw [hk] at h <;> first | rfl | cases h
  rw [afterReport, ho, h]

/-- A report leaves the row of a plain task that is done alone. -/
theorem get_afterReport_of_done {r : Report} {task : Task} (h : Plain t db)
    (hg : db.tasks.get t = some task) (hd : task.isDone = true) :
    (db.afterReport r now now').tasks.get t = some task := by
  have hopen : ∀ x, db.tasks.get r.task = some x → x.isDone = false → t ≠ r.task := by
    rintro x hx hxd rfl
    cases hg.symm.trans hx
    rw [hd] at hxd
    cases hxd
  unfold afterReport
  split
  · refine whenOpen_cases (fun db' => db'.tasks.get t = some task) hg fun x hx hxd => ?_
    rw [get_mirror (h.evolves evolves_finish)]
    exact (get_saveTask_of_ne (hopen x hx hxd)).trans hg
  split
  · refine whenOpen_cases (fun db' => db'.tasks.get t = some task) hg fun x hx hxd => ?_
    exact (get_saveTask_of_ne (hopen x hx hxd)).trans hg
  · refine whenThere_cases (fun db' => db'.tasks.get t = some task) hg ?_
    split
    · rw [get_mirror (h.evolves evolves_record)]; exact hg
    · exact hg
    · exact hg
    · exact hg

end Database

/-! ## The handlers -/

variable {S : Settings} {ok : Input → Stmt → World → Prop} {w : World} {α : Type}

theorem exec_createEvent {i : Input} {event : TaskEvent}
    (hthere : (w.db.tasks.get event.task).isSome = true) :
    exec S i (.task (.createEvent event)) w = (true, { w with db := w.db.record event }) := by
  simp only [exec, createEvent_exec, hthere, if_true]
  rfl

theorem wp_createEvent {event : TaskEvent} {Q : Except Error Unit → World → Prop}
    (hthere : (w.db.tasks.get event.task).isSome = true)
    (h : Q (.ok ()) { w with db := w.db.record event }) :
    wp (exec S) ok (createEvent event) Q w := by
  intro i _
  rw [exec_createEvent hthere]
  exact h

theorem wp_createEvent_missing {event : TaskEvent} {Q : Except Error Unit → World → Prop}
    (hmissing : w.db.tasks.get event.task = none) (h : Q (.error .integrityError) w) :
    wp (exec S) ok (createEvent event) Q w := by
  intro i _
  rw [show exec S i (.task (.createEvent event)) w = (false, w) from
    by simp [exec, createEvent_exec, hmissing]]
  exact h

theorem wp_saveTask {id : TaskId} {u : TaskUpdate} {Q : Except Error Unit → World → Prop}
    (h : ∀ now, Q (.ok ()) { w with db := w.db.saveTask id u now }) :
    wp (exec S) ok (saveTask id u) Q w :=
  fun i _ => h i.now

theorem runAlone_evolves {α : Type} (p : Handler α) (i : Nat → Input) (w : World) :
    w.db.Evolves (runAlone S p i w).db := by
  induction p generalizing i w with
  | ret a => exact .refl
  | fail e => exact .refl
  | stmt c k ih => exact exec_evolves.trans (ih _ _ _)

theorem runAll_evolves {κ : Type} {code : κ → Handler Unit} {calls : List (κ × (Nat → Input))} :
    w.db.Evolves (runAll S code w calls).db := by
  induction calls generalizing w with
  | nil => exact .refl
  | cons c calls ih => exact (runAlone_evolves _ _ _).trans ih

theorem wp_ask {q : Query} {Q : Except Error q.Ans → World → Prop}
    (h : ∀ i, Q (.ok (q.eval S i w.db)) w) : wp (exec S) ok (ask q) Q w :=
  fun i _ => h i

/-- The two timers of a task are cancelled before anything else is done. -/
theorem wp_cancelTimer {server : ServerId} {registry : Registry} {key : Nat}
    {Q : Except Error Unit → World → Prop} (h : Q (.ok ()) (w.setTimer server registry key none)) :
    wp (exec S) ok (cancelTimer server registry key) Q w :=
  fun _ _ => h

namespace PersistBackend

variable {Q : Except Error Unit → World → Prop}

theorem wp_finishTask {id : TaskId} {kind : TaskEventKind} {message : Option EventText}
    (hthere : (w.db.tasks.get id).isSome = true)
    (h : ∀ now, Q (.ok ()) { w with db := w.db.finish id kind message now }) :
    wp (exec S) ok (finishTask id kind message) Q w :=
  wp_bind.mpr (wp_createEvent hthere (wp_saveTask h))

theorem wp_unfoldToHigherOrder {child : TaskId} {kind : TaskEventKind}
    {returns : Option (Dict Json)} {message : Option EventText}
    (h : ∀ now, Q (.ok ()) { w with db := w.db.mirror child kind returns message now }) :
    wp (exec S) ok (unfoldToHigherOrder child kind returns message) Q w := by
  refine wp_bind.mpr (wp_ask fun i => ?_)
  have hq : (Query.unfoldSource child).eval S i w.db = w.db.unfoldSource child := rfl
  rw [hq]
  unfold Database.mirror Database.mirrorTarget at h
  match hans : w.db.unfoldSource child with
  | none => rw [hans] at h; exact h 0
  | some none => rw [hans] at h; exact h 0
  | some (some (parent, none)) => rw [hans] at h; exact h 0
  | some (some (parent, some impl)) =>
    rw [hans] at h
    cases hho : impl.higherOrderFor with
    | none =>
      simp only [hho, Option.isSome_none, Bool.false_eq_true, if_false] at h
      simp only [after, hho, Option.isNone_none, if_true]
      exact h 0
    | some lower =>
      obtain ⟨_, row, _, _, _, hrow, _⟩ := unfoldSource_eq.mp hans
      simp only [hho, Option.isSome_some, if_true] at h
      simp only [after, hho, Option.isNone_some, Bool.false_eq_true, if_false, bind_eq]
      exact wp_bind.mpr (wp_createEvent (by rw [wrapperEvent, hrow]; rfl) (wp_saveTask h))

/-- A terminal report: `change` finishes the task and mirrors that. -/
theorem wp_finishOpen {id : TaskId} {kind : TaskEventKind} {message : Option EventText} {x : Task}
    {db : Database} (hdb : w.db = db) (hx : db.tasks.get id = some x) :
    wp (exec S) ok
      (if x.isDone = true then .ret () else
        (finishTask id kind message).bind fun _ => unfoldToHigherOrder id kind none message)
      (fun _ w' => ∃ now now', w'.db = db.whenOpen id fun db =>
        (db.finish id kind message now).mirror id kind none message now') w := by
  subst hdb
  cases hd : x.isDone with
  | true => exact ⟨0, 0, (Database.whenOpen_of_done hx hd).symm⟩
  | false =>
    refine wp_bind.mpr (wp_finishTask (by rw [hx]; rfl) fun now => ?_)
    exact wp_unfoldToHigherOrder fun now' => ⟨now, now', by simp [Database.whenOpen, hx, hd]⟩

theorem wp_onTerminalReport {server : ServerId} {id : TaskId} {kind : TaskEventKind}
    {message : Option EventText} :
    wp (exec S) ok (onTerminalReport server id kind message)
      (fun _ w' => ∃ now now', w'.db = w.db.whenOpen id fun db =>
        (db.finish id kind message now).mirror id kind none message now') w := by
  refine wp_bind.mpr (wp_cancelTimer (wp_bind.mpr (wp_cancelTimer (wp_bind.mpr
    (wp_ask fun i => ?_)))))
  show wp _ _ ((orDoesNotExist "Task" (w.db.tasks.get id)).bind _) _ _
  cases hx : w.db.tasks.get id with
  | none => exact ⟨0, 0, (Database.whenOpen_of_missing hx).symm⟩
  | some x => exact wp_finishOpen rfl hx

theorem wp_onAgentInterrupted {server : ServerId} {id : TaskId} :
    wp (exec S) ok (onAgentInterrupted server id)
      (fun _ w' => ∃ now now', w'.db = w.db.whenOpen id fun db =>
        (db.finish id .interrupted none now).mirror id .interrupted none none now') w := by
  refine wp_bind.mpr (wp_cancelTimer (wp_bind.mpr (wp_cancelTimer (wp_bind.mpr
    (wp_ask fun i => ?_)))))
  dsimp only [after, Query.eval, World.setTimer]
  cases hx : w.db.tasks.get id with
  | none => exact ⟨0, 0, (Database.whenOpen_of_missing hx).symm⟩
  | some x => exact wp_finishOpen rfl hx

theorem wp_onNonterminalConfirm {server : ServerId} {id : TaskId} {kind : TaskEventKind}
    {cancelLease : Bool} :
    wp (exec S) ok (onNonterminalConfirm server id kind cancelLease)
      (fun _ w' => ∃ now, w'.db = w.db.whenOpen id fun db =>
        (db.record { task := id, kind := kind }).saveTask id { latestEventKind := some kind } now)
      w := by
  have hrest : ∀ w : World, wp (exec S) ok (onNonterminalConfirm server id kind false)
      (fun _ w' => ∃ now, w'.db = w.db.whenOpen id fun db =>
        (db.record { task := id, kind := kind }).saveTask id { latestEventKind := some kind } now)
      w := by
    intro w
    refine wp_bind.mpr (wp_ask fun i => ?_)
    dsimp only [after, Query.eval]
    cases hx : w.db.tasks.get id with
    | none => exact ⟨0, (Database.whenOpen_of_missing hx).symm⟩
    | some x =>
      show wp _ _ (if x.isDone = true then _ else _) _ _
      cases hd : x.isDone with
      | true => exact ⟨0, (Database.whenOpen_of_done hx hd).symm⟩
      | false =>
        refine wp_bind.mpr (wp_createEvent (by rw [hx]; rfl) (wp_saveTask fun now => ?_))
        exact ⟨now, by simp [Database.whenOpen, hx, hd]⟩
  cases cancelLease with
  | false => exact hrest w
  | true => exact wp_bind.mpr (wp_cancelTimer (hrest (w.setTimer server .progressLeases id none)))

/-- An event, and what follows it: nothing happens where the task is missing. -/
theorem wp_recordThere (P : Database → Prop) {event : TaskEvent} {p : Handler Unit}
    (hp : (w.db.tasks.get event.task).isSome = true →
      wp (exec S) ok p (fun _ w' => P w'.db) { w with db := w.db.record event })
    (hmissing : w.db.tasks.get event.task = none → P w.db) :
    wp (exec S) ok ((createEvent event).bind fun _ => p) (fun _ w' => P w'.db) w := by
  refine wp_bind.mpr ?_
  cases hx : w.db.tasks.get event.task with
  | none => exact wp_createEvent_missing hx (hmissing hx)
  | some x =>
    have hthere : (w.db.tasks.get event.task).isSome = true := by rw [hx]; rfl
    exact wp_createEvent hthere (hp hthere)

theorem wp_armProgressLease {server : ServerId} {id : TaskId} :
    wp (exec S) ok (armProgressLease S server id) (fun _ w' => w'.db = w.db) w := by
  have hread : ∀ q : Query, Keeps (exec S) ok (fun w' : World => w'.db = w.db) (ask q) :=
    fun q => Keeps.issue fun _ _ _ h => h
  have htimer : ∀ c : TimerStmt, Keeps (ε := Error) (exec S) ok (fun w' : World => w'.db = w.db)
      (Prog.issue (L := Statements) (.timer c)) :=
    fun c => Keeps.issue fun _ _ _ h => exec_timer_db.trans h
  have hkeeps : Keeps (exec S) ok (fun w' : World => w'.db = w.db)
      (armProgressLease S server id) := by
    unfold armProgressLease
    split
    · exact Keeps.compositional.ret ()
    · refine Keeps.compositional.bind (hread _) fun row =>
        Keeps.compositional.bind (orDoesNotExist_built Keeps.compositional) fun row => ?_
      split
      split
      · exact Keeps.compositional.ret ()
      · exact htimer _
  exact hkeeps w rfl

theorem wp_onAgentYield {id : TaskId} {returns : Option (Dict Json)} :
    wp (exec S) ok (onAgentYield id returns)
      (fun _ w' => ∃ now, w'.db = w.db.whenThere id fun db =>
        (db.record { task := id, kind := .yield, returns := returns }).mirror id .yield returns
          none now) w := by
  refine wp_recordThere (fun db' => ∃ now, db' = w.db.whenThere id fun db =>
    (db.record { task := id, kind := .yield, returns := returns }).mirror id .yield returns none
      now) (fun hx => ?_) fun hx => ⟨0, (Database.whenThere_of_missing hx).symm⟩
  exact wp_unfoldToHigherOrder fun now => ⟨now, by rw [Database.whenThere_of_there hx]⟩

theorem wp_onAgentLog {id : TaskId} {message : EventText} :
    wp (exec S) ok (onAgentLog id message)
      (fun _ w' => w'.db = w.db.whenThere id fun db =>
        db.record { task := id, kind := .log, message := some message }) w := by
  cases hx : w.db.tasks.get id with
  | none => exact wp_createEvent_missing hx (Database.whenThere_of_missing hx).symm
  | some x =>
    have hthere : (w.db.tasks.get id).isSome = true := by rw [hx]; rfl
    exact wp_createEvent hthere (by rw [Database.whenThere_of_there hthere])

theorem wp_onAgentProgress {server : ServerId} {id : TaskId} {progress : Option Int}
    {message : Option EventText} :
    wp (exec S) ok (onAgentProgress S server id progress message)
      (fun _ w' => w'.db = w.db.whenThere id fun db =>
        db.record { task := id, kind := .progress, progress := progress, message := message })
      w := by
  refine wp_recordThere (fun db => db = _) (fun hx => ?_) fun hx => (Database.whenThere_of_missing hx).symm
  refine wp_mono (fun _ w' h => ?_) wp_armProgressLease
  rw [h, Database.whenThere_of_there hx]

/-- **A report alone** computes `afterReport`. -/
theorem wp_onReport {server : ServerId} {r : Report} :
    wp (exec S) ok (onReport S server r)
      (fun _ w' => ∃ now now', w'.db = w.db.afterReport r now now') w := by
  have hreply : ∀ {p : Handler Unit} {m : Option ToAgentMessage}
      {R : Except Error Unit → World → Prop}, wp (exec S) ok p R w →
      (∀ a w', R a w' → ∃ now now', w'.db = w.db.afterReport r now now') →
      wp (exec S) ok (p.bind fun _ => .ret m)
        (fun _ w' => ∃ now now', w'.db = w.db.afterReport r now now') w := by
    intro p m R hp hR
    refine wp_bind.mpr (wp_mono ?_ hp)
    rintro (e | a) w' h
    · exact hR _ w' h
    · exact hR _ w' h
  have hconfirm : ∀ {kind : TaskEventKind} {cancelLease : Bool} {m : Option ToAgentMessage},
      r.kind.confirmation = some kind →
      wp (exec S) ok ((onNonterminalConfirm server r.task kind cancelLease).bind fun _ => .ret m)
        (fun _ w' => ∃ now now', w'.db = w.db.afterReport r now now') w := by
    intro kind cancelLease m hc
    refine hreply wp_onNonterminalConfirm ?_
    rintro _ w' ⟨now, h⟩
    exact ⟨now, 0, by rw [h, Database.afterReport_of_confirmation hc]⟩
  have hterminal : ∀ {kind : TaskEventKind} {message : Option EventText}
      {m : Option ToAgentMessage}, r.kind.outcome = some (kind, message) →
      wp (exec S) ok ((onTerminalReport server r.task kind message).bind fun _ => .ret m)
        (fun _ w' => ∃ now now', w'.db = w.db.afterReport r now now') w := by
    intro kind message m ho
    refine hreply wp_onTerminalReport ?_
    rintro _ w' ⟨now, now', h⟩
    exact ⟨now, now', by rw [h, Database.afterReport_of_outcome ho]⟩
  unfold onReport
  cases hk : r.kind with
  | started => exact hconfirm (by rw [hk]; rfl)
  | paused => exact hconfirm (by rw [hk]; rfl)
  | resumed => exact hconfirm (by rw [hk]; rfl)
  | completed => exact hterminal (by rw [hk]; rfl)
  | cancelled => exact hterminal (by rw [hk]; rfl)
  | failed error => exact hterminal (by rw [hk]; rfl)
  | critical error => exact hterminal (by rw [hk]; rfl)
  | interrupted =>
    refine hreply wp_onAgentInterrupted ?_
    rintro _ w' ⟨now, now', h⟩
    exact ⟨now, now', by rw [h, Database.afterReport, hk]; rfl⟩
  | log message =>
    refine hreply wp_onAgentLog fun _ w' h => ⟨0, 0, ?_⟩
    rw [h, Database.afterReport, hk]
    rfl
  | progress progress message =>
    refine hreply wp_onAgentProgress fun _ w' h => ⟨0, 0, ?_⟩
    rw [h, Database.afterReport, hk]
    rfl
  | «yield» returns =>
    refine hreply wp_onAgentYield ?_
    rintro _ w' ⟨now, h⟩
    refine ⟨0, now, ?_⟩
    rw [h, Database.afterReport, hk]
    rfl

theorem wp_reconcileSilentPhysicalOp {id : TaskId} :
    wp (exec S) ok (reconcileSilentPhysicalOp id)
      (fun _ w' => ∃ now, w'.db = w.db.whenOpen id fun db =>
        db.finish id .critical (some silentMessage) now) w := by
  refine wp_bind.mpr (wp_ask fun i => ?_)
  show wp _ _ ((orDoesNotExist "Task" (w.db.tasks.get id)).bind _) _ _
  cases hx : w.db.tasks.get id with
  | none => exact ⟨0, (Database.whenOpen_of_missing hx).symm⟩
  | some x =>
    show wp _ _ (if x.isDone = true then _ else _) _ _
    cases hd : x.isDone with
    | true => exact ⟨0, (Database.whenOpen_of_done hx hd).symm⟩
    | false =>
      exact wp_finishTask (by rw [hx]; rfl) fun now =>
        ⟨now, by simp [Database.whenOpen, hx, hd]⟩

end PersistBackend
end Rekuest
