import Rekuest.Lease.Rows

/-!
# Rekuest.Tasks.Rows

What the statements do to the rows of the task table and to the recorded events.

* `Task.Evolves`: the columns a task keeps for its whole life, and `is_done`, which never goes
  back. Every statement evolves every task (`evolves_exec`).
* `terminalEvents`: the recorded events of a task that end it.
-/

namespace Rekuest

open Interleave

variable {S : Settings} {i : Input} {w : World} {t : TaskId}

/-! ## Tasks -/

/-- The later row is the earlier one, but for the columns that record its progress. -/
structure Task.Evolves (task task' : Task) : Prop where
  same : task' = { task with
    latestEventKind := task'.latestEventKind
    latestInstructKind := task'.latestInstructKind
    isDone := task'.isDone
    finishedAt := task'.finishedAt }
  done : task.isDone = true → task'.isDone = true

namespace Task.Evolves

variable {task task' task'' : Task}

theorem refl : Task.Evolves task task := ⟨rfl, id⟩

theorem trans (h : Task.Evolves task task') (h' : Task.Evolves task' task'') :
    Task.Evolves task task'' where
  same := by rw [h'.same, h.same]
  done := h'.done ∘ h.done

theorem implementation_eq (h : Task.Evolves task task') :
    task'.implementation = task.implementation := by rw [h.same]

theorem parent_eq (h : Task.Evolves task task') : task'.parent = task.parent := by rw [h.same]

theorem root_eq (h : Task.Evolves task task') : task'.root = task.root := by rw [h.same]

theorem agent_eq (h : Task.Evolves task task') : task'.agent = task.agent := by rw [h.same]

theorem action_eq (h : Task.Evolves task task') : task'.action = task.action := by rw [h.same]

theorem caller_eq (h : Task.Evolves task task') : task'.caller = task.caller := by rw [h.same]

theorem apply {u : TaskUpdate} {now : Time} : Task.Evolves task (u.apply now task) where
  same := rfl
  done h := by simp [TaskUpdate.apply, h]

theorem claimTransition {now : Time} {toKind : TaskEventKind} {markDone : Bool}
    {skip : Option TaskEventKind} :
    Task.Evolves task (task.claimTransition now toKind markDone skip).2 := by
  unfold Task.claimTransition
  split
  · exact refl
  · exact apply

end Task.Evolves

theorem claimTransition_lost {task : Task} {now : Time} {toKind : TaskEventKind}
    {markDone : Bool} {skip : Option TaskEventKind}
    (h : task.isDone = true ∨ skip = some task.latestEventKind) :
    task.claimTransition now toKind markDone skip = (false, task) := by
  unfold Task.claimTransition
  rw [if_pos]
  rcases h with h | h <;> simp [h]

theorem claimTransition_won {task : Task} {now : Time} {toKind : TaskEventKind}
    {markDone : Bool} {skip : Option TaskEventKind} (hd : task.isDone = false)
    (hs : skip ≠ some task.latestEventKind) :
    task.claimTransition now toKind markDone skip =
      (true, TaskUpdate.apply { latestEventKind := some toKind, done := markDone } now task) := by
  unfold Task.claimTransition
  rw [if_neg]
  simp [hd, hs]

theorem exec_task_db {c : TaskStmt} : (exec S i (.task c) w).2.db = (c.exec i w.db).2 := rfl

theorem exec_task_ans {c : TaskStmt} : (exec S i (.task c) w).1 = (c.exec i w.db).1 := rfl

theorem get_save {db : Database} {id : TaskId} {u : TaskUpdate} :
    ((TaskStmt.save id u).exec i db).2.tasks.get t =
      if t = id then (db.tasks.get t).map (u.apply i.now) else db.tasks.get t :=
  Table.get_modify

theorem get_claimTransition {db : Database} {id : TaskId} {toKind : TaskEventKind}
    {markDone : Bool} {skip : Option TaskEventKind} :
    ((TaskStmt.claimTransition id toKind markDone skip).exec i db).2.tasks.get t =
      if t = id then
        (db.tasks.get t).map fun task => (task.claimTransition i.now toKind markDone skip).2
      else db.tasks.get t := by
  simp only [TaskStmt.exec]
  by_cases ht : t = id
  · subst ht
    cases h : db.tasks.get t with
    | none => simp [h]
    | some task => simp [h]
  · simp only [ht, if_false]
    cases h : db.tasks.get id with
    | none => rfl
    | some task => exact Table.get_modify_of_ne ht

theorem ans_claimTransition {db : Database} {id : TaskId} {toKind : TaskEventKind}
    {markDone : Bool} {skip : Option TaskEventKind} :
    ((TaskStmt.claimTransition id toKind markDone skip).exec i db).1 =
      (db.tasks.get id).map fun task => (task.claimTransition i.now toKind markDone skip).1 := by
  simp only [TaskStmt.exec]
  cases db.tasks.get id <;> rfl

theorem createEvent_tasks {db : Database} {event : TaskEvent} :
    ((TaskStmt.createEvent event).exec i db).2.tasks = db.tasks := by
  simp only [TaskStmt.exec]
  split <;> rfl

/-- A statement that is none on a task leaves the tasks and the events alone. -/
theorem exec_not_task {c : Stmt} (h : ∀ s, c ≠ .task s) :
    (exec S i c w).2.db.tasks = w.db.tasks ∧ (exec S i c w).2.db.events = w.db.events := by
  obtain ⟨agents, pins, callers, sessions, patches, snapshots, locks, hdb⟩ := exec_frame (S := S) (i := i) (w := w) h
  rw [hdb]
  exact ⟨rfl, rfl⟩

/-- Every statement evolves every task. -/
theorem evolves_exec {c : Stmt} {task : Task} (h : w.db.tasks.get t = some task) :
    ∃ task', (exec S i c w).2.db.tasks.get t = some task' ∧ task.Evolves task' := by
  by_cases hc : ∃ s, c = .task s
  · obtain ⟨s, rfl⟩ := hc
    cases s with
    | create row =>
      simp only [exec, TaskStmt.exec]
      split
      · exact ⟨task, Table.get_insert_of_get h, .refl⟩
      · exact ⟨task, h, .refl⟩
    | createEvent event =>
      refine ⟨task, ?_, .refl⟩
      show ((TaskStmt.createEvent event).exec i w.db).2.tasks.get t = some task
      rw [createEvent_tasks, h]
    | save id u =>
      by_cases ht : t = id
      · exact ⟨_, get_save.trans (by rw [if_pos ht, h]; rfl), .apply⟩
      · exact ⟨task, get_save.trans (by rw [if_neg ht, h]), .refl⟩
    | claimTransition id toKind markDone skip =>
      by_cases ht : t = id
      · exact ⟨_, get_claimTransition.trans (by rw [if_pos ht, h]; rfl), .claimTransition⟩
      · exact ⟨task, get_claimTransition.trans (by rw [if_neg ht, h]), .refl⟩
  · rw [(exec_not_task fun s hs => hc ⟨s, hs⟩).1]
    exact ⟨task, h, .refl⟩

theorem unfoldSource_eq {db : Database} {child parent : TaskId} {impl : Implementation} :
    db.unfoldSource child = some (some (parent, some impl)) ↔
      ∃ task row implId, db.tasks.get child = some task ∧ task.parent = some parent ∧
        db.tasks.get parent = some row ∧ row.implementation = some implId ∧
        db.implementations.get implId = some impl := by
  constructor
  · intro h
    obtain ⟨task, ht, hp⟩ := Option.map_eq_some_iff.mp h
    obtain ⟨p, hparent, hrow⟩ := Option.bind_eq_some_iff.mp hp
    obtain ⟨row, hr, heq⟩ := Option.map_eq_some_iff.mp hrow
    obtain ⟨rfl, himpl⟩ := Prod.mk.inj heq
    obtain ⟨implId, hid, hget⟩ := Option.bind_eq_some_iff.mp himpl
    exact ⟨task, row, implId, ht, hparent, hr, hid, hget⟩
  · rintro ⟨task, row, implId, ht, hparent, hr, hid, hget⟩
    simp [Database.unfoldSource, ht, hparent, hr, hid, hget]

/-- The later database holds every task of the earlier one, evolved, and the same
implementations and actions. -/
structure Database.Evolves (db db' : Database) : Prop where
  implementations : db'.implementations = db.implementations
  actions : db'.actions = db.actions
  tasks : ∀ {t task}, db.tasks.get t = some task →
    ∃ task', db'.tasks.get t = some task' ∧ task.Evolves task'

namespace Database.Evolves

variable {db db' db'' : Database}

theorem refl : Database.Evolves db db := ⟨rfl, rfl, fun h => ⟨_, h, .refl⟩⟩

theorem trans (h : Database.Evolves db db') (h' : Database.Evolves db' db'') :
    Database.Evolves db db'' where
  implementations := h'.implementations.trans h.implementations
  actions := h'.actions.trans h.actions
  tasks hg := by
    obtain ⟨task', hg', he⟩ := h.tasks hg
    obtain ⟨task'', hg'', he'⟩ := h'.tasks hg'
    exact ⟨task'', hg'', he.trans he'⟩

end Database.Evolves

theorem exec_evolves {c : Stmt} : w.db.Evolves (exec S i c w).2.db :=
  ⟨exec_implementations.1, exec_implementations.2, evolves_exec⟩

/-- The task is there and no higher-order wrapper. -/
def Plain (t : TaskId) (db : Database) : Prop :=
  ∃ task, db.tasks.get t = some task ∧ ¬ db.IsWrapper task

theorem Plain.evolves {db db' : Database} (h : Plain t db) (hev : db.Evolves db') :
    Plain t db' := by
  obtain ⟨task, hg, hw⟩ := h
  obtain ⟨task', hg', he⟩ := hev.tasks hg
  refine ⟨task', hg', ?_⟩
  rintro ⟨impl, row, hi, hrow, hho⟩
  rw [he.implementation_eq] at hi
  rw [hev.implementations] at hrow
  exact hw ⟨impl, row, hi, hrow, hho⟩

theorem Plain.exec {c : Stmt} (h : Plain t w.db) : Plain t (exec S i c w).2.db :=
  h.evolves exec_evolves

/-- The events of a task are not mirrored onto a plain one. -/
theorem Plain.ne_parent {db : Database} {child parent : TaskId} {impl : Implementation}
    (h : Plain t db) (hsrc : db.unfoldSource child = some (some (parent, some impl)))
    (hho : impl.higherOrderFor.isSome = true) : parent ≠ t := by
  rintro rfl
  obtain ⟨task, hg, hw⟩ := h
  obtain ⟨_, row, implId, _, _, hrow, hid, hget⟩ := unfoldSource_eq.mp hsrc
  cases hg.symm.trans hrow
  exact hw ⟨implId, impl, hid, hget, hho⟩

/-- A done row is left alone by every statement but a save. -/
theorem get_exec_of_done {c : Stmt} {task : Task} (hc : ∀ u, c ≠ .task (.save t u))
    (hg : w.db.tasks.get t = some task) (hd : task.isDone = true) :
    (exec S i c w).2.db.tasks.get t = some task := by
  by_cases htask : ∃ s, c = .task s
  · obtain ⟨s, rfl⟩ := htask
    rw [exec_task_db]
    cases s with
    | create row =>
      simp only [TaskStmt.exec]
      split
      · exact Table.get_insert_of_get hg
      · exact hg
    | createEvent event => rw [createEvent_tasks, hg]
    | save id u =>
      rw [get_save, if_neg (by rintro rfl; exact hc u rfl), hg]
    | claimTransition id toKind markDone skip =>
      rw [get_claimTransition]
      split
      · rw [hg, Option.map_some, claimTransition_lost (.inl hd)]
      · exact hg
  · rw [(exec_not_task fun s hs => htask ⟨s, hs⟩).1, hg]

/-! ## Events -/

/-- The recorded events that end the task, in order. -/
def terminalEvents (db : Database) (t : TaskId) : List TaskEvent :=
  (db.eventsOf t).filter (·.kind.isTerminal)

/-- The event is recorded on the task if the task is there. -/
theorem createEvent_exec {db : Database} {event : TaskEvent} :
    (TaskStmt.createEvent event).exec i db =
      if (db.tasks.get event.task).isSome then (true, { db with events := db.events ++ [event] })
      else (false, db) := rfl

theorem eventsOf_append {db : Database} {event : TaskEvent} :
    ({ db with events := db.events ++ [event] } : Database).eventsOf t =
      db.eventsOf t ++ if event.task = t then [event] else [] := by
  simp only [Database.eventsOf, List.filter_append]
  congr 1
  by_cases h : event.task = t <;> simp [h]

theorem save_events {db : Database} {id : TaskId} {u : TaskUpdate} :
    ((TaskStmt.save id u).exec i db).2.events = db.events := rfl

theorem claimTransition_events {db : Database} {id : TaskId} {toKind : TaskEventKind}
    {markDone : Bool} {skip : Option TaskEventKind} :
    ((TaskStmt.claimTransition id toKind markDone skip).exec i db).2.events = db.events := by
  simp only [TaskStmt.exec]
  cases db.tasks.get id <;> rfl

theorem terminalEvents_of_events {db db' : Database} (h : db'.events = db.events) :
    terminalEvents db' t = terminalEvents db t := by
  unfold terminalEvents Database.eventsOf
  rw [h]

theorem terminalEvents_append {db : Database} {event : TaskEvent} :
    terminalEvents { db with events := db.events ++ [event] } t =
      terminalEvents db t ++
        if event.task = t ∧ event.kind.isTerminal = true then [event] else [] := by
  unfold terminalEvents
  rw [eventsOf_append, List.filter_append]
  congr 1
  by_cases ht : event.task = t <;> by_cases hk : event.kind.isTerminal = true <;> simp [ht, hk]

/-- The task on whose row or events a statement writes. -/
def Stmt.writesOn : Stmt → Option TaskId
  | .task (.createEvent event) => some event.task
  | .task (.save id _) => some id
  | .task (.claimTransition id ..) => some id
  | _ => none

/-- A statement that writes on another task leaves the row and its outcome alone. -/
theorem exec_aside {c : Stmt} {task : Task} (hc : c.writesOn ≠ some t)
    (hg : w.db.tasks.get t = some task) :
    (exec S i c w).2.db.tasks.get t = some task ∧
      terminalEvents (exec S i c w).2.db t = terminalEvents w.db t := by
  by_cases htask : ∃ s, c = .task s
  · obtain ⟨s, rfl⟩ := htask
    rw [exec_task_db]
    cases s with
    | create row =>
      simp only [TaskStmt.exec]
      split
      · exact ⟨Table.get_insert_of_get hg, rfl⟩
      · exact ⟨hg, rfl⟩
    | createEvent event =>
      have hne : event.task ≠ t := fun h => hc (congrArg some h)
      refine ⟨by rw [createEvent_tasks, hg], ?_⟩
      rw [createEvent_exec]
      split
      · rw [terminalEvents_append, if_neg fun h => hne h.1, List.append_nil]
      · rfl
    | save id u =>
      have hne : t ≠ id := fun h => hc (congrArg some h.symm)
      exact ⟨by rw [get_save, if_neg hne, hg], terminalEvents_of_events save_events⟩
    | claimTransition id toKind markDone skip =>
      have hne : t ≠ id := fun h => hc (congrArg some h.symm)
      exact ⟨by rw [get_claimTransition, if_neg hne, hg],
        terminalEvents_of_events claimTransition_events⟩
  · obtain ⟨htasks, hevents⟩ := exec_not_task (S := S) (i := i) (w := w)
      fun s hs => htask ⟨s, hs⟩
    exact ⟨by rw [htasks, hg], terminalEvents_of_events hevents⟩

/-- Agent 1, not connected, and its open task 1, on an implementation with the given effect. -/
def runningWorld (effect : EffectClass) : World :=
  { Lease.idleWorld with db := { Lease.idleWorld.db with
      actions := Table.empty.insert { key := "act", hash := "hash", organization := ⟨1, "org"⟩ }
      implementations := Table.empty.insert
        { interface := "act", action := 1, agent := 1, effect := effect }
      tasks := Table.empty.insert {
        implementation := some 1, action := 1, reference := "ref", agent := 1
        latestEventKind := .started, latestInstructKind := .assign } } }

theorem plain_runningWorld {effect : EffectClass} : Plain 1 (runningWorld effect).db := by
  refine ⟨_, rfl, ?_⟩
  rintro ⟨i, impl, hi, himpl, hho⟩
  cases hi
  cases himpl
  cases hho

end Rekuest
