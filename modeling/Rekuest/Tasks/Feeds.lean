import Rekuest.Queries
import Rekuest.Signals
import Rekuest.Tasks.Interrupt

/-!
# Rekuest.Tasks.Feeds

Whether the feeds of root tasks carry only tasks without a parent.

* `RootsOnly`: what a step announces on a root feed is about a task without a parent.
* `MyTasksExact`: `my_tasks` returns just the caller's open tasks without a parent.
* `misplaced`: a row with a parent that is stored without a root.
* `root_feeds_iff`: the feeds and the query are right just when no step stores a misplaced row. They
  all take a task for a root where `root` is null, and an assign with a parent leaves it so.
-/

namespace Rekuest
namespace Feeds

open Interleave Interleave.Prog
open Signals
open Reference (stretches)

/-- The calls, process by process. -/
abbrev Conf := Sys Statements Error Unit Nat World

/-- What the step announces on a root feed is about a task without a parent. -/
def RootsOnly (S : Settings) (c : Conf) (e : Nat × Input) : Prop :=
  ∀ st ∈ (c.procs e.1).next?, ∀ x ∈ announced S e.2 st c.shared, x.topic.isRootFeed = true →
    ((exec S e.2 st c.shared).2.db.tasks.get x.task).all (·.parent.isNone) = true

/-- `my_tasks` returns the open tasks without a parent of whoever asks, and no others. -/
def MyTasksExact (S : Settings) (w : World) : Prop :=
  ∀ identity i, ∃ k tasks, ((Queries.myTasks identity).run (exec S) i w).result = .ok tasks ∧
    ((Queries.myTasks identity).run (exec S) i w).state.db.callerOf? identity = some k ∧
    ∀ t task, (t, task) ∈ tasks ↔ w.db.tasks.get t = some task ∧ task.caller = some k ∧
      task.isDone = false ∧ task.parent = none

/-- The row has a parent and a caller, and no root. -/
def misplaced (row : Task) : Bool := row.parent.isSome && row.root.isNone && row.caller.isSome

/-- The statement stores no misplaced row. -/
def inPlace (db : Database) : Stmt → Bool
  | .task (.create row) => !(db.admits row && misplaced row)
  | _ => true

def StoresInPlace (c : Conf) (e : Nat × Input) : Prop :=
  ∀ st ∈ (c.procs e.1).next?, inPlace c.shared.db st = true

instance (S : Settings) (c : Conf) (e : Nat × Input) : Decidable (RootsOnly S c e) :=
  inferInstanceAs (Decidable (∀ st ∈ (c.procs e.1).next?, ∀ x ∈ announced S e.2 st c.shared, _ → _))

instance (c : Conf) (e : Nat × Input) : Decidable (StoresInPlace c e) :=
  inferInstanceAs (Decidable (∀ st ∈ (c.procs e.1).next?, _))

variable {S : Settings} {i : Input} {w : World} {db : Database} {t : TaskId} {task row : Task}
  {caller : CallerId} {x : Announcement}

/-! ## What is announced -/

theorem rootFeed_childTopics {topic : Topic} (h : topic ∈ childTopics task) :
    topic.isRootFeed = false := by
  unfold childTopics at h
  split at h
  · cases h
  · rw [List.mem_singleton.mp h]
    rfl
  · split at h
    · rw [List.mem_singleton.mp h]
      rfl
    · simp only [List.mem_cons, List.not_mem_nil, or_false] at h
      obtain rfl | rfl := h <;> rfl

/-- A saved task is announced on a root feed when it is created, with a caller and no root. -/
theorem rootFeed_postSave {created : Bool} (hx : x ∈ taskPostSave db t task created)
    (hroot : x.topic.isRootFeed = true) :
    x.task = t ∧ created = true ∧ task.root = none ∧ task.caller.isSome = true := by
  obtain ⟨topic, htopic, rfl⟩ := List.mem_map.mp hx
  refine ⟨rfl, ?_⟩
  obtain htopic | htopic := List.mem_append.mp htopic
  · cases hc : task.caller with
    | none => simp [hc] at htopic
    | some caller =>
      by_cases h : created = true ∧ task.root.isNone = true
      · exact ⟨h.1, Option.isNone_iff_eq_none.mp h.2, rfl⟩
      · simp [hc] at htopic
        simp [htopic.1] at h
  · obtain rfl | htopic := List.mem_cons.mp htopic
    · cases hroot
    · rw [rootFeed_childTopics htopic] at hroot
      cases hroot

/-- An event is announced on a root feed when its task has a caller and no root. -/
theorem rootFeed_event {id : Nat} {event : TaskEvent} (hx : x ∈ publishTaskEvent db id event)
    (hroot : x.topic.isRootFeed = true) :
    ∃ task, x.task = event.task ∧ db.tasks.get event.task = some task ∧ task.root = none ∧
      task.caller.isSome = true := by
  unfold publishTaskEvent at hx
  cases hg : db.tasks.get event.task with
  | none => simp [hg] at hx
  | some task =>
    cases hc : task.caller with
    | none => simp [hg, hc] at hx
    | some caller =>
      simp only [hg, hc] at hx
      obtain ⟨topic, htopic, rfl⟩ := List.mem_map.mp hx
      refine ⟨task, rfl, rfl, ?_, by rw [hc]; rfl⟩
      obtain rfl | htopic := List.mem_cons.mp htopic
      · cases hroot
      · by_contra hne
        simp [hne] at htopic

/-! ## Stored in place -/

/-- No task is misplaced. -/
def InPlace (db : Database) : Prop := ∀ t task, db.tasks.get t = some task → misplaced task = false

theorem parent_of_inPlace (h : misplaced row = false) (hroot : row.root = none)
    (hcaller : row.caller.isSome = true) : row.parent = none := by
  simpa [misplaced, hroot, hcaller] using h

theorem misplaced_evolves {task' : Task} (he : task.Evolves task') :
    misplaced task' = misplaced task := by
  unfold misplaced
  rw [he.parent_eq, he.root_eq, he.caller_eq]

theorem inPlace_exec {c : Stmt} (hc : inPlace w.db c = true) (h : InPlace w.db) :
    InPlace (exec S i c w).2.db := by
  intro t task' hg'
  obtain ⟨task, hg, he⟩ | ⟨rfl, hadmits, _⟩ := get_exec_cases hg'
  · rw [misplaced_evolves he]
    exact h t task hg
  · simpa [inPlace, hadmits] using hc

/-- What is announced of a world without misplaced tasks is about roots. -/
theorem announced_inPlace {c : Stmt} (h : InPlace (exec S i c w).2.db)
    (hx : x ∈ announced S i c w) (hroot : x.topic.isRootFeed = true) :
    ((exec S i c w).2.db.tasks.get x.task).all (·.parent.isNone) = true := by
  have hall : ∀ task, (exec S i c w).2.db.tasks.get x.task = some task → task.root = none →
      task.caller.isSome = true →
      ((exec S i c w).2.db.tasks.get x.task).all (·.parent.isNone) = true := by
    intro task hg hr hk
    rw [hg, Option.all_some, Option.isNone_iff_eq_none]
    exact parent_of_inPlace (h _ _ hg) hr hk
  have hsaved : ∀ id, x ∈ ((((exec S i c w).2.db.tasks.get id).map fun task =>
      taskPostSave (exec S i c w).2.db id task false).getD []) → False := by
    intro id hx
    cases hg : (exec S i c w).2.db.tasks.get id with
    | none => simp [hg] at hx
    | some task =>
      rw [hg] at hx
      have := (rootFeed_postSave hx hroot).2.1
      cases this
  cases c with
  | task c =>
    cases c with
    | create row =>
      by_cases hadmits : w.db.admits row = true
      · simp only [announced, hadmits, if_true] at hx
        obtain ⟨htask, _, hr, hk⟩ := rootFeed_postSave hx hroot
        have hnew : (exec S i (.task (.create row)) w).2.db.tasks.get x.task = some row := by
          rw [htask, exec_task_db]
          simp only [TaskStmt.exec, hadmits, if_true]
          exact Table.get_insert_next
        exact hall row hnew hr hk
      · simp [announced, hadmits] at hx
    | createEvent event =>
      by_cases hthere : w.db.hasTask (some event.task) = true
      · simp only [announced, hthere, if_true] at hx
        obtain ⟨task, htask, hg, hr, hk⟩ := rootFeed_event hx hroot
        rw [← htask] at hg
        exact hall task hg hr hk
      · simp [announced, hthere] at hx
    | save id u => exact (hsaved id hx).elim
    | claimTransition id toKind markDone skip =>
      simp only [announced] at hx
      split at hx
      · exact (hsaved id hx).elim
      · cases hx
  | _ => cases hx

/-- A misplaced row is announced as a root when it is stored. -/
theorem announced_misplaced {row : Task} (hadmits : w.db.admits row = true)
    (hmis : misplaced row = true) : ∃ x ∈ announced S i (.task (.create row)) w,
      x.topic.isRootFeed = true ∧
        ((exec S i (.task (.create row)) w).2.db.tasks.get x.task).all (·.parent.isNone) = false := by
  simp only [misplaced, Bool.and_eq_true] at hmis
  obtain ⟨⟨hparent, hroot⟩, hcaller⟩ := hmis
  obtain ⟨caller, hk⟩ := Option.isSome_iff_exists.mp hcaller
  refine ⟨⟨.rootTasksCaller caller, w.db.tasks.next, .create⟩, ?_, rfl, ?_⟩
  · simp [announced, hadmits, taskPostSave, hk, hroot, rootTopics]
  · rw [exec_task_db]
    simp only [TaskStmt.exec, hadmits, if_true, Table.get_insert_next, Option.all_some]
    simpa using hparent

/-! ## The query -/

/-- A task without a root has no parent, and one with a root has. -/
theorem myTasks_exact (hforest : w.db.Forest) (h : InPlace w.db) : MyTasksExact S w := by
  intro identity i
  have hmade : ∃ k, (exec S (i 0) (.getOrCreateCaller identity) w).1 = k ∧
      (exec S (i 0) (.getOrCreateCaller identity) w).2.db.callerOf? identity = some k ∧
      (exec S (i 0) (.getOrCreateCaller identity) w).2.db.tasks = w.db.tasks := by
    simp only [exec]
    cases hk : w.db.callerOf? identity with
    | some k => exact ⟨k, rfl, hk, rfl⟩
    | none => exact ⟨_, rfl, Reference.callerOf?_insert_new hk, rfl⟩
  obtain ⟨k, hans, hcaller, htasks⟩ := hmade
  refine ⟨k, _, rfl, hcaller, fun t task => ?_⟩
  show (t, task) ∈ (exec S (i 0) (.getOrCreateCaller identity) w).2.db.tasks.selectBy (i 1).rank
    (fun _ task => task.caller = some (exec S (i 0) (.getOrCreateCaller identity) w).1 &&
      task.root.isNone && !task.isDone) ↔ _
  rw [hans, htasks, Table.mem_selectBy]
  simp only [Bool.and_eq_true, decide_eq_true_eq, Option.isNone_iff_eq_none, Bool.not_eq_true']
  constructor
  · rintro ⟨hg, ⟨hk, hroot⟩, hd⟩
    exact ⟨hg, hk, hd, parent_of_inPlace (h t task hg) hroot (by rw [hk]; rfl)⟩
  · rintro ⟨hg, hk, hd, hparent⟩
    refine ⟨hg, ⟨hk, ?_⟩, hd⟩
    cases hr : task.root with
    | none => rfl
    | some r =>
      rw [hforest.rooted hg hr] at hparent
      cases hparent

/-! ## The runs -/

theorem storesInPlace_of_rootsOnly {c : Conf} {e : Nat × Input} (h : RootsOnly S c e) :
    StoresInPlace c e := by
  intro st hst
  by_contra hne
  cases st with
  | task st =>
    cases st with
    | create row =>
      simp only [inPlace, Bool.not_eq_true', Bool.not_eq_false, Bool.and_eq_true] at hne
      obtain ⟨x, hx, hroot, hparent⟩ :=
        announced_misplaced (S := S) (i := e.2) (w := c.shared) hne.1 hne.2
      rw [h _ hst x hx hroot] at hparent
      cases hparent
    | _ => exact hne rfl
  | _ => exact hne rfl

/-- The step keeps the tasks in place, and announces roots only. -/
theorem rootsOnly_step {c : Conf} {e : Nat × Input} (h : InPlace c.shared.db)
    (hstores : StoresInPlace c e) :
    InPlace (c.step (exec S) e).shared.db ∧ RootsOnly S c e := by
  cases hp : c.procs e.1 with
  | stmt st k =>
    have hkept : InPlace (exec S e.2 st c.shared).2.db :=
      inPlace_exec (hstores st (by rw [hp]; rfl)) h
    rw [Sys.step_stmt hp, Sys.put_shared]
    refine ⟨hkept, fun st' hst' x hx hroot => ?_⟩
    rw [hp] at hst'
    cases hst'
    exact announced_inPlace hkept hx hroot
  | ret a =>
    refine ⟨by simpa [Sys.step, hp] using h, fun st' hst' => ?_⟩
    rw [hp] at hst'
    cases hst'
  | fail x =>
    refine ⟨by simpa [Sys.step, hp] using h, fun st' hst' => ?_⟩
    rw [hp] at hst'
    cases hst'

/-- **The root feeds carry only root tasks**, and `my_tasks` is right, in every run of the calls from
a world without tasks, just when no step of it stores a task with a parent and without a root. -/
theorem root_feeds_iff (S : Settings) (calls : Nat → Call) (w : World)
    (hw : ∀ t, w.db.tasks.get t = none) (sched : List (Nat × Input)) :
    (Along (Sys.step (exec S)) (RootsOnly S) ⟨w, fun p => (calls p).code S⟩ sched ∧
      MyTasksExact S (Sys.run (exec S) ⟨w, fun p => (calls p).code S⟩ sched).shared) ↔
    Along (Sys.step (exec S)) StoresInPlace ⟨w, fun p => (calls p).code S⟩ sched := by
  constructor
  · intro h
    exact h.1.mono fun _ _ => storesInPlace_of_rootsOnly
  · intro h
    have hempty : InPlace w.db := fun t task hg => by
      rw [hw] at hg
      cases hg
    have hkeeps : ∀ (c : Conf) e, InPlace c.shared.db → StoresInPlace c e →
        InPlace (c.step (exec S) e).shared.db := fun c e hc he => (rootsOnly_step hc he).1
    refine ⟨(h.with_inv hkeeps hempty).mono fun c e he => (rootsOnly_step he.1 he.2).2, ?_⟩
    have hreached : Reached S (Sys.run (exec S) ⟨w, fun p => (calls p).code S⟩ sched).shared :=
      ⟨w, calls, sched, hw, rfl⟩
    exact myTasks_exact hreached.forest (h.inv hkeeps hempty)

section Dependent

open Interrupt (assigns)

/-- The calls `assigns`, from a world without tasks. -/
def assigning (implementation : ImplementationId) : Conf :=
  ⟨Virtual.wrapperWorld false, fun p => (assigns implementation p).code {}⟩

theorem root_feeds_wrapped :
    Along (Sys.step (exec {})) (RootsOnly {}) (assigning 2) (stretches [(0, 20)]) ∧
      MyTasksExact {} ((assigning 2).run (exec {}) (stretches [(0, 20)])).shared :=
  (root_feeds_iff {} (assigns 2) (Virtual.wrapperWorld false) (fun _ => rfl)
    (stretches [(0, 20)])).mpr (by decide +kernel)

/-- Task 2 has task 1 as its parent. It is announced as a root, and returned as one. -/
theorem dependent_task_fed :
    ¬ Along (Sys.step (exec {})) (RootsOnly {}) (assigning 1) (stretches [(0, 20), (1, 20)]) ∧
    ¬ MyTasksExact {} ((assigning 1).run (exec {}) (stretches [(0, 20), (1, 20)])).shared := by
  refine ⟨by decide +kernel, fun h => ?_⟩
  let identity : AgentIdentity := ⟨⟨1, "client"⟩, ⟨1, "user"⟩, ⟨1, "org"⟩⟩
  obtain ⟨k, tasks, hret, _, hexact⟩ := h identity fun _ => {}
  have hkeys : (((Queries.myTasks identity).run (exec {}) (fun _ => {})
      ((assigning 1).run (exec {}) (stretches [(0, 20), (1, 20)])).shared).result.toOption.any
        fun tasks => tasks.any fun x => x.2.parent.isSome) = true := by decide +kernel
  rw [hret] at hkeys
  obtain ⟨⟨t, task⟩, hmem, hparent⟩ := List.any_eq_true.mp hkeys
  obtain ⟨_, _, _, hnone⟩ := (hexact t task).mp hmem
  simp [hnone] at hparent

end Dependent

end Feeds
end Rekuest
