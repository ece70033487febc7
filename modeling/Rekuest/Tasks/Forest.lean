import Rekuest.Tasks.Linked

/-!
# Rekuest.Tasks.Forest

Parents and roots in the databases that the server processes can reach.

* `Stmt.Rooted`: a task is stored with no other root than its parent. Every call stays within
  (`Call.rooted`).
* `Database.Forest`: a parent is stored before its children, and a root is a parent.
* `Database.Within`: a task is the given one, or descends from it.
* `Reached`: a world that the calls reach, side by side, from one without tasks.
-/

namespace Rekuest

open Interleave Interleave.Prog

variable {S : Settings} {i : Input} {w : World} {db : Database} {t id p r : TaskId}

/-! ## What the calls store -/

/-- A task is stored with no other root than its parent. -/
def Stmt.Rooted : Stmt → Prop
  | .task (.create row) => ∀ r, row.root = some r → row.parent = some r
  | _ => True

theorem Stmt.Quiet.rooted {c : Stmt} (h : c.Quiet) : c.Rooted := by
  cases c with
  | task c =>
    cases c with
    | create row => exact h.elim
    | _ => trivial
  | _ => trivial

theorem Stmt.Aside.rooted {c : Stmt} (h : c.Aside) : c.Rooted := by
  cases c with
  | task c =>
    cases c with
    | create row => exact h.elim
    | _ => trivial
  | _ => trivial

theorem assigns_rooted : Assigns fun _ p => Prog.Issues (L := Statements) Stmt.Rooted p where
  toCompositional := Issues.compositional
  read _ := .issue trivial
  caller _ := .issue trivial
  create _ hrow := .issue hrow
  push _ _ := .issue trivial
  post _ _ := .issue trivial

theorem PostmanCall.rooted (c : PostmanCall) :
    Prog.Issues (L := Statements) Stmt.Rooted (c.code S) := by
  have hquiet : ∀ {p : Handler Unit}, Prog.Issues (L := Statements) Stmt.Quiet p →
      Prog.Issues (L := Statements) Stmt.Rooted p := fun hp => hp.mono fun _ => Stmt.Quiet.rooted
  cases c with
  | assign ctx input => exact discard_built Issues.compositional assigns_rooted.assign
  | control op id =>
    exact hquiet (discard_built Issues.compositional Backend.requestControl_issues)
  | callerAssign agent reference input =>
    exact discard_built Issues.compositional assigns_rooted.callerAssignSync
  | callerControl agent op id =>
    exact hquiet (discard_built Issues.compositional Backend.callerControlSync_issues)
  | callerCancel server agent id autoInterrupt =>
    exact hquiet (discard_built Issues.compositional Backend.onCallerCancel_issues)
  | escalate id => exact hquiet Backend.escalateToInterrupt_issues

theorem Call.rooted (c : Call) : Prog.Issues (L := Statements) Stmt.Rooted (c.code S) := by
  cases c with
  | connection c => exact (TaskCall.connection c).aside.mono fun _ => Stmt.Aside.rooted
  | agent c => exact c.issues.mono fun _ => Stmt.Quiet.rooted
  | report c => exact (TaskCall.report c).aside.mono fun _ => Stmt.Aside.rooted
  | postman c => exact c.rooted

/-! ## Parents -/

/-- A parent was stored before its children, and a root is a parent. -/
structure Database.Forest (db : Database) : Prop where
  earlier : ∀ {t task p}, db.tasks.get t = some task → task.parent = some p → p < t
  rooted : ∀ {t task r}, db.tasks.get t = some task → task.root = some r → task.parent = some r

theorem forest_exec {c : Stmt} (hc : c.Rooted) (h : w.db.Forest) :
    (exec S i c w).2.db.Forest := by
  constructor
  · intro t task' p hg' hp
    obtain ⟨task, hg, he⟩ | ⟨_, hadmits, rfl⟩ := get_exec_cases hg'
    · rw [he.parent_eq] at hp
      exact h.earlier hg hp
    · have hthere := (admits_iff.mp hadmits).1
      rw [hp] at hthere
      obtain ⟨row, hrow⟩ := Option.isSome_iff_exists.mp hthere
      exact Table.lt_next hrow
  · intro t task' r hg' hr
    obtain ⟨task, hg, he⟩ | ⟨rfl, _, _⟩ := get_exec_cases hg'
    · rw [he.root_eq] at hr
      rw [he.parent_eq]
      exact h.rooted hg hr
    · exact hc r hr

/-- `p` is the parent of `t`. -/
def Database.ParentOf (db : Database) (p t : TaskId) : Prop :=
  ∃ task, db.tasks.get t = some task ∧ task.parent = some p

/-- The task is the given one, or descends from it. -/
def Database.Within (db : Database) (id t : TaskId) : Prop :=
  Relation.ReflTransGen db.ParentOf id t

namespace Database.Forest

variable {task : Task}

theorem root_lt (h : db.Forest) (hg : db.tasks.get t = some task) (hr : task.root = some r) :
    r < t :=
  h.earlier hg (h.rooted hg hr)

/-- A task descends from its root. -/
theorem within_of_root (h : db.Forest) (hg : db.tasks.get t = some task)
    (hr : task.root = some id) : db.Within id t :=
  .single ⟨task, hg, h.rooted hg hr⟩

end Database.Forest

/-! ## Reachable worlds -/

/-- The calls reach the world, side by side, from one without tasks. -/
def Reached (S : Settings) (w : World) : Prop :=
  ∃ (w₀ : World) (calls : Nat → Call) (sched : List (Nat × Input)),
    (∀ t, w₀.db.tasks.get t = none) ∧
      w = (Sys.run (exec S) ⟨w₀, fun p => (calls p).code S⟩ sched).shared

/-- What every call's statements preserve holds in every reachable world. -/
theorem Reached.inv {I : World → Prop} {G : Stmt → Prop} (h : Reached S w)
    (hempty : ∀ w₀ : World, (∀ t, w₀.db.tasks.get t = none) → I w₀)
    (hcall : ∀ c : Call, Prog.Issues (L := Statements) G (c.code S))
    (hexec : ∀ i c w, G c → I w → I (exec S i c w).2) : I w := by
  obtain ⟨w₀, calls, sched, hnone, rfl⟩ := h
  exact Sys.run_inv hexec (fun p => hcall (calls p)) sched (hempty w₀ hnone)

theorem Reached.forest (h : Reached S w) : w.db.Forest := by
  refine h.inv (I := fun w => w.db.Forest) (fun w₀ hnone => ⟨?_, ?_⟩) Call.rooted
    fun _ _ _ => forest_exec
  · intro t task p hg
    rw [hnone] at hg
    cases hg
  · intro t task r hg
    rw [hnone] at hg
    cases hg

theorem Reached.linked (h : Reached S w) : w.db.Linked := by
  refine h.inv (I := fun w => w.db.Linked) (G := fun _ => True) (fun w₀ hnone => ?_)
    (fun c => ?_) fun _ _ _ _ => linked_exec
  · intro t task hg
    rw [hnone] at hg
    cases hg
  · exact c.rooted.mono fun _ _ => trivial

/-- Who asks for the tasks in the worlds below. -/
def requester : CallerContext where
  user := ⟨1, "user"⟩
  client := some ⟨1, "client"⟩
  organization := some ⟨1, "org"⟩

end Rekuest
