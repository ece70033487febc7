import Rekuest.Tasks.Family

/-!
# Rekuest.Tasks.Linked

What the foreign keys of the database hold together, and what a re-dispatch reads of it.

* `Database.Linked`: every task row points to rows that are there. Every statement keeps this
  (`linked_exec`), so it holds in every state that the server processes reach.
* `Database.Carries`: the later database has no new tasks, and still has every row that the
  earlier one has. `redispatchable_carries`: what can be re-dispatched stays so.
-/

namespace Rekuest

open Interleave Interleave.Prog

variable {S : Settings} {i : Input} {w : World} {db db' db'' : Database} {t id : TaskId}

/-- Every task row points to rows that are there. -/
def Database.Linked (db : Database) : Prop :=
  ∀ t task, db.tasks.get t = some task → db.admits task = true

/-- What the foreign keys of a row ask for. -/
theorem admits_iff {row : Task} : db.admits row = true ↔
    db.hasTask row.parent = true ∧ db.hasTask row.root = true ∧
      (db.agents.get row.agent).isSome = true ∧ (db.actions.get row.action).isSome = true ∧
      (∀ impl ∈ row.implementation, (db.implementations.get impl).isSome = true) ∧
      ∀ caller ∈ row.caller, (db.callers.get caller).isSome = true := by
  simp only [Database.admits, Bool.and_eq_true, Option.all_eq_true]
  tauto

namespace Database.Linked

theorem agent (h : db.Linked) {task : Task} (hg : db.tasks.get t = some task) :
    (db.agents.get task.agent).isSome = true :=
  (admits_iff.mp (h t task hg)).2.2.1

theorem caller (h : db.Linked) {task : Task} {c : CallerId} (hg : db.tasks.get t = some task)
    (hc : task.caller = some c) : ∃ row, db.callers.get c = some row :=
  Option.isSome_iff_exists.mp ((admits_iff.mp (h t task hg)).2.2.2.2.2 c hc)

theorem parent (h : db.Linked) {task : Task} {p : TaskId} (hg : db.tasks.get t = some task)
    (hp : task.parent = some p) : ∃ row, db.tasks.get p = some row := by
  have hthere := (admits_iff.mp (h t task hg)).1
  rw [hp] at hthere
  exact Option.isSome_iff_exists.mp hthere

end Database.Linked

theorem exec_callers {c : Stmt} {k : CallerId} {caller : Caller}
    (h : w.db.callers.get k = some caller) : (exec S i c w).2.db.callers.get k = some caller := by
  by_cases htask : ∃ s, c = .task s
  · obtain ⟨s, rfl⟩ := htask
    obtain ⟨tasks, events, hdb⟩ := TaskStmt.exec_frame (i := i) s w.db
    rw [exec_task_db, hdb, h]
  cases c with
  | task s => exact absurd ⟨s, rfl⟩ htask
  | read q => exact h
  | lease c =>
    obtain ⟨agents, hdb⟩ := LeaseStmt.exec_frame (S := S) (i := i) c w.db
    show (c.exec S i w.db).2.callers.get k = _
    rw [hdb, h]
  | agent c =>
    obtain ⟨agents, pins, hdb⟩ := AgentStmt.exec_frame c w.db
    show (c.exec w.db).2.callers.get k = _
    rw [hdb, h]
  | getOrCreateCaller identity =>
    simp only [exec]
    split
    · exact h
    · exact Table.get_insert_of_get h
  | state c =>
    obtain ⟨sessions, patches, snapshots, locks, hdb⟩ := StateStmt.exec_frame (i := i) c w.db
    show (c.exec i w.db).2.callers.get k = _
    rw [hdb, h]
  | deliver c => rw [exec_deliver_db, h]
  | timer c => rw [exec_timer_db, h]

theorem exec_memberships {c : Stmt} : (exec S i c w).2.db.memberships = w.db.memberships := by
  by_cases htask : ∃ s, c = .task s
  · obtain ⟨s, rfl⟩ := htask
    obtain ⟨tasks, events, hdb⟩ := TaskStmt.exec_frame (i := i) s w.db
    rw [exec_task_db, hdb]
  · obtain ⟨agents, pins, callers, sessions, patches, snapshots, locks, hdb⟩ := exec_frame (S := S) (i := i) (w := w)
      fun s hs => htask ⟨s, hs⟩
    rw [hdb]

/-! ## Foreign keys -/

/-- The later database has the rows that the earlier one has. -/
structure Database.Extends (db db' : Database) : Prop extends db.Evolves db' where
  agents : ∀ {a}, (db.agents.get a).isSome = true → (db'.agents.get a).isSome = true
  callers : ∀ {k caller}, db.callers.get k = some caller → db'.callers.get k = some caller
  memberships : db'.memberships = db.memberships

namespace Database.Extends

theorem refl : db.Extends db := ⟨.refl, id, id, rfl⟩

theorem trans (h : db.Extends db') (h' : db'.Extends db'') : db.Extends db'' where
  toEvolves := h.toEvolves.trans h'.toEvolves
  agents := h'.agents ∘ h.agents
  callers := h'.callers ∘ h.callers
  memberships := h'.memberships.trans h.memberships

theorem hasTask (h : db.Extends db') {id : Option TaskId} (hid : db.hasTask id = true) :
    db'.hasTask id = true := by
  cases id with
  | none => rfl
  | some id =>
    obtain ⟨task, hg⟩ := Option.isSome_iff_exists.mp hid
    obtain ⟨task', hg', _⟩ := h.tasks hg
    exact Option.isSome_iff_exists.mpr ⟨task', hg'⟩

theorem admits (h : db.Extends db') {row : Task} (hr : db.admits row = true) :
    db'.admits row = true := by
  obtain ⟨hparent, hroot, hagent, haction, himpl, hcaller⟩ := admits_iff.mp hr
  refine admits_iff.mpr ⟨h.hasTask hparent, h.hasTask hroot, h.agents hagent, ?_, ?_, ?_⟩
  · rw [h.actions]; exact haction
  · rw [h.implementations]; exact himpl
  · intro k hk
    obtain ⟨caller, hg⟩ := Option.isSome_iff_exists.mp (hcaller k hk)
    exact Option.isSome_iff_exists.mpr ⟨caller, h.callers hg⟩

end Database.Extends

theorem admits_evolves {task task' : Task} (he : task.Evolves task') :
    db.admits task' = db.admits task := by
  rw [he.same]
  rfl

theorem extends_exec {c : Stmt} : w.db.Extends (exec S i c w).2.db where
  toEvolves := exec_evolves
  agents := exec_agents_there
  callers := exec_callers
  memberships := exec_memberships

/-- A task row is one that was there, or the one that the statement creates. -/
theorem get_exec_cases {c : Stmt} {task' : Task}
    (h : (exec S i c w).2.db.tasks.get t = some task') :
    (∃ task, w.db.tasks.get t = some task ∧ task.Evolves task') ∨
      c = .task (.create task') ∧ w.db.admits task' = true ∧ t = w.db.tasks.next := by
  cases hold : w.db.tasks.get t with
  | some task =>
    obtain ⟨task'', hg'', he⟩ := evolves_exec (S := S) (i := i) (c := c) hold
    cases h.symm.trans hg''
    exact .inl ⟨task, rfl, he⟩
  | none =>
    by_cases htask : ∃ s, c = .task s
    swap
    · rw [(exec_not_task fun s hs => htask ⟨s, hs⟩).1, hold] at h
      cases h
    obtain ⟨s, rfl⟩ := htask
    rw [exec_task_db] at h
    cases s with
    | create row =>
      simp only [TaskStmt.exec] at h
      split at h
      · rename_i hadmits
        rcases Table.get_insert_cases h with ⟨hnext, rfl⟩ | ⟨_, hg⟩
        · exact .inr ⟨rfl, hadmits, hnext⟩
        · rw [hold] at hg; cases hg
      · rw [hold] at h; cases h
    | createEvent event => rw [createEvent_tasks, hold] at h; cases h
    | save id u => rw [get_save, hold] at h; split at h <;> cases h
    | claimTransition id kind markDone skip =>
      rw [get_claimTransition, hold] at h
      split at h <;> cases h

/-- A new row satisfies its foreign keys, and no statement takes a row away. -/
theorem linked_exec {c : Stmt} (h : w.db.Linked) : (exec S i c w).2.db.Linked := by
  intro t task' hg'
  refine extends_exec.admits ?_
  obtain ⟨task, hg, he⟩ | ⟨_, hadmits, _⟩ := get_exec_cases hg'
  · rw [admits_evolves he]
    exact h t task hg
  · exact hadmits

theorem linked_runAlone {α : Type} {p : Handler α} {i : Nat → Input} (h : w.db.Linked) :
    (runAlone S p i w).db.Linked := by
  have hkeeps : Keeps (exec S) anyStep (fun w : World => w.db.Linked) p :=
    Keeps.of_steps fun _ _ _ _ h => linked_exec h
  exact hkeeps.run h meets_any

/-! ## Re-dispatching -/

/-- The later database has no new tasks, and has the rows that the earlier one has. -/
structure Database.Carries (db db' : Database) : Prop extends db.Progresses db' where
  callers : ∀ {k caller}, db.callers.get k = some caller → db'.callers.get k = some caller
  memberships : db'.memberships = db.memberships

namespace Database.Carries

theorem refl : db.Carries db := ⟨.refl, id, rfl⟩

theorem trans (h : db.Carries db') (h' : db'.Carries db'') : db.Carries db'' where
  toProgresses := h.toProgresses.trans h'.toProgresses
  callers := h'.callers ∘ h.callers
  memberships := h'.memberships.trans h.memberships

theorem linked (hc : db.Carries db') (h : db.Linked) : db'.Linked := by
  intro t task' hg'
  obtain ⟨task, hg⟩ := Option.isSome_iff_exists.mp (hc.old hg')
  obtain ⟨task'', hg'', he⟩ := hc.tasks hg
  cases hg'.symm.trans hg''
  have hext : db.Extends db' := ⟨hc.toEvolves, hc.agents, hc.callers, hc.memberships⟩
  rw [admits_evolves he]
  exact hext.admits (h t task hg)

end Database.Carries

open Provenance

/-- The root of a task is the same row. -/
theorem resolveRoot_carries (h : db.Linked) (hc : db.Carries db') (fuel : Nat)
    {task task' : Task} (hg : db.tasks.get t = some task) (he : task.Evolves task') :
    ∃ r root root', resolveRoot db fuel t task = (r, root) ∧
      resolveRoot db' fuel t task' = (r, root') ∧ db.tasks.get r = some root ∧
      root.Evolves root' := by
  induction fuel generalizing t task task' with
  | zero => exact ⟨t, task, task', rfl, rfl, hg, he⟩
  | succ fuel ih =>
    simp only [resolveRoot, he.parent_eq]
    cases hp : task.parent with
    | none => exact ⟨t, task, task', rfl, rfl, hg, he⟩
    | some p =>
      obtain ⟨row, hrow⟩ := h.parent hg hp
      obtain ⟨row', hrow', her⟩ := hc.tasks hrow
      simp only [hrow, hrow']
      exact ih hrow her

/-- Whether a token is refused is settled when the task is stored. -/
theorem mint_isOk_carries (h : db.Linked) (hc : db.Carries db') {ctx : CallerContext}
    (hthere : (db.tasks.get t).isSome = true) :
    ((Query.mint t ctx).eval S i db').isOk = ((Query.mint t ctx).eval S i db).isOk := by
  obtain ⟨task, hg⟩ := Option.isSome_iff_exists.mp hthere
  obtain ⟨task', hg', he⟩ := hc.tasks hg
  obtain ⟨agent, hagent⟩ := Option.isSome_iff_exists.mp (h.agent hg)
  obtain ⟨agent', hagent'⟩ := Option.isSome_iff_exists.mp (hc.agents (h.agent hg))
  obtain ⟨r, root, root', hroot, hroot', hrg, her⟩ :=
    resolveRoot_carries h hc maxLineageDepth hg he
  have hhuman : (rootPrincipal S db' root' task'.parent.isNone ctx).2 =
      (rootPrincipal S db root task.parent.isNone ctx).2 := by
    unfold rootPrincipal
    rw [he.parent_eq]
    split
    · rfl
    · rw [her.caller_eq]
      cases hcaller : root.caller with
      | none => rfl
      | some k =>
        obtain ⟨caller, hk⟩ := h.caller hrg hcaller
        simp only [Option.bind_some, hk, hc.callers hk]
        unfold isHumanCaller Provenance.rolesForCaller
        rw [hc.memberships]
  simp only [Query.eval, hg, hg', mintTokenForTask, he.implementation_eq, hc.implementations,
    he.agent_eq, hagent, hagent', hroot, hroot']
  rw [hhuman]
  cases task.implementation.bind db.implementations.get with
  | none => rfl
  | some impl =>
    dsimp only
    split
    · split
      · rfl
      · split <;> rfl
    · rfl

/-- The arguments are of no matter to the root. -/
theorem resolveRoot_loaded {n : Nat} {task : Task} :
    (resolveRoot db n t task.loaded).2.caller = (resolveRoot db n t task).2.caller := by
  cases n with
  | zero => rfl
  | succ n =>
    have hparent : task.loaded.parent = task.parent := rfl
    rw [resolveRoot, resolveRoot, hparent]
    cases task.parent with
    | none => rfl
    | some parent =>
      dsimp only
      cases db.tasks.get parent <;> rfl

/-- Nor to whether a token is refused. -/
theorem mintLoaded_isOk {ctx : CallerContext} :
    ((Query.mintLoaded t ctx).eval S i db).isOk = ((Query.mint t ctx).eval S i db).isOk := by
  cases hg : db.tasks.get t with
  | none => simp only [Query.eval, hg]
  | some task =>
    have hhuman : (rootPrincipal S db (resolveRoot db maxLineageDepth t task.loaded).2
        task.parent.isNone ctx).2 = (rootPrincipal S db (resolveRoot db maxLineageDepth t task).2
        task.parent.isNone ctx).2 := by
      unfold rootPrincipal
      rw [resolveRoot_loaded]
    have himpl : task.loaded.implementation = task.implementation := rfl
    have hagent : task.loaded.agent = task.agent := rfl
    have hparent : task.loaded.parent = task.parent := rfl
    simp only [Query.eval, hg, mintTokenForTask, himpl, hagent, hparent]
    rw [hhuman]
    cases task.implementation.bind db.implementations.get with
    | none => rfl
    | some impl =>
      cases db.agents.get task.agent with
      | none => rfl
      | some agent =>
        dsimp only
        split
        · split
          · rfl
          · split <;> rfl
        · rfl

/-- What can be re-dispatched stays so. -/
theorem redispatchable_carries (h : db.Linked) (hc : db.Carries db')
    (hthere : (db.tasks.get t).isSome = true) :
    db'.redispatchable S t = db.redispatchable S t := by
  obtain ⟨task, hg⟩ := Option.isSome_iff_exists.mp hthere
  obtain ⟨task', hg', he⟩ := hc.tasks hg
  have hmint : ∀ ctx, ((Query.mintLoaded t ctx).eval S default db').isOk =
      ((Query.mintLoaded t ctx).eval S default db).isOk := fun ctx => by
    rw [mintLoaded_isOk, mintLoaded_isOk, mint_isOk_carries h hc hthere]
  have hcaller : task'.caller.bind db'.callers.get = task.caller.bind db.callers.get := by
    rw [he.caller_eq]
    cases hk : task.caller with
    | none => rfl
    | some k =>
      obtain ⟨caller, hrow⟩ := h.caller hg hk
      rw [Option.bind_some, Option.bind_some, hrow, hc.callers hrow]
  have hsource : ∀ db : Database, ∀ task : Task, db.tasks.get t = some task →
      (Query.redispatchSource t).eval S default db = some {
        task := task.loaded
        implementation := task.implementation.bind fun impl =>
          (db.implementations.get impl).map (impl, ·)
        action := db.actions.get task.action
        caller := task.caller.bind db.callers.get } := by
    intro db task hg
    simp only [Query.eval, hg, Option.map_some]
  unfold Database.redispatchable
  rw [hsource db task hg, hsource db' task' hg', hcaller, he.implementation_eq, he.action_eq,
    hc.implementations, hc.actions]
  cases task.implementation.bind fun impl => (db.implementations.get impl).map (impl, ·) with
  | none => rfl
  | some impl =>
    cases db.actions.get task.action with
    | none => rfl
    | some action =>
      cases task.caller.bind db.callers.get with
      | none => rfl
      | some caller => exact hmint _

/-- Agent 1, gone, and its open task 1, which its caller 1 assigned. -/
def orphanWorld (idempotent : Bool) : World :=
  let base := runningWorld .none
  { base with db := { base.db with
      actions := Table.empty.insert {
        key := "act", hash := "hash", organization := ⟨1, "org"⟩, idempotent := idempotent }
      callers := Table.empty.insert ⟨⟨1, "client"⟩, ⟨1, "user"⟩, ⟨1, "org"⟩⟩
      tasks := Table.empty.insert {
        implementation := some 1, action := 1, reference := "ref", agent := 1, caller := some 1
        latestEventKind := .started, latestInstructKind := .assign } } }

theorem linked_orphanWorld {idempotent : Bool} : (orphanWorld idempotent).db.Linked := by
  intro t task hg
  rcases Table.get_insert_cases hg with ⟨_, rfl⟩ | ⟨_, hnone⟩
  · rfl
  · cases hnone

end Rekuest
