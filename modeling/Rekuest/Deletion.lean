import Rekuest.Interleave.Keyed
import Rekuest.Store

/-!
# Rekuest.Deletion

What the deletion of an action, of implementations or of states takes with it: the `on_delete`
rules of the foreign keys.

* `Doomed`: the rows that a deletion reaches. `Database.doomed`: by cascades, from the deleted rows.
* `Database.remove`: the database without them. `Database.delete`: unless a row is protected.
* `Database.removeStates`: the deletion of states.
-/

namespace Rekuest

open Interleave (Table)

/-- The rows that a deletion reaches. -/
structure Doomed where
  action : ActionId → Bool
  implementation : ImplementationId → Bool
  resolution : Nat → Bool
  task : TaskId → Bool

namespace Database

variable (db : Database)

/-- The tasks of a list, and their children along `parent` and `root`. -/
def withChildren (ids : List TaskId) : List TaskId :=
  (db.tasks.select fun t task =>
    ids.contains t || task.parent.any ids.contains || task.root.any ids.contains).map (·.1)

/-- The tasks that meet a condition, and all below them: no chain of children is longer than the
table. -/
def withDescendants (seed : Task → Bool) : List TaskId :=
  (List.range db.tasks.next).foldl (fun ids _ => db.withChildren ids)
    ((db.tasks.select fun _ task => seed task).map (·.1))

/-- What the deletion of actions and of implementations reaches. -/
def doomed (action : ActionId → Bool) (implementation : ImplementationId → Bool) : Doomed :=
  let implementations := fun i =>
    implementation i || (db.implementations.get i).any fun row => action row.action
  let resolutions := fun r => (db.resolutions.get r).any fun row =>
    implementations row.implementation
  let tasks := db.withDescendants fun task =>
    action task.action || task.implementation.any implementations ||
      task.resolution.any resolutions
  { action := action
    implementation := implementations
    resolution := resolutions
    task := tasks.contains }

/-- `SET_NULL` of a choice whose dependency goes with its implementation. -/
def ResolvedDependency.unlink (d : Doomed) (row : ResolvedDependency) : ResolvedDependency :=
  { row with dependency := row.dependency.filter fun dependency =>
      !(db.dependencies.get dependency).any fun dep => d.implementation dep.implementation }

def remove (d : Doomed) : Database :=
  { db with
    actions := db.actions.erase fun k _ => d.action k
    argPorts := fun k => if d.action k then [] else db.argPorts k
    returnPorts := fun k => if d.action k then [] else db.returnPorts k
    protocols := fun k => if d.action k then [] else db.protocols k
    isTestFor := fun k => if d.action k then ∅ else (db.isTestFor k).filter fun j => !d.action j
    collectionsOf := fun k => if d.action k then ∅ else db.collectionsOf k
    implementations := (db.implementations.erase fun i _ => d.implementation i).adjust fun row =>
      { row with higherOrderFor := row.higherOrderFor.filter fun i => !d.implementation i }
    manipulates := fun i => if d.implementation i then ∅ else db.manipulates i
    dependencies := db.dependencies.erase fun _ row => d.implementation row.implementation
    resolutions := db.resolutions.erase fun r _ => d.resolution r
    resolvedDependencies := (db.resolvedDependencies.erase fun _ row =>
      d.resolution row.resolution || row.downStreamResolution.any d.resolution).adjust
        (ResolvedDependency.unlink db d)
    tasks := db.tasks.erase fun t _ => d.task t
    events := db.events.filter fun e => !(d.task e.task || e.delegatedTo.any d.task)
    patches := db.patches.filter fun p => !p.task.any d.task
    locks := db.locks.adjust fun row =>
      { row with holdBy := row.holdBy.filter fun t => !d.task t } }

/-- `PROTECT`: a choice of one of the implementations. -/
def isProtected (d : Doomed) : Bool :=
  (db.resolvedDependencies.select fun _ row => d.implementation row.implementation).any fun _ => true

def delete (action : ActionId → Bool) (implementation : ImplementationId → Bool) :
    Except Error Database :=
  let d := db.doomed action implementation
  if db.isProtected d then .error .protectedError else .ok (db.remove d)

/-- The deletion of states: their log, and the links of who manipulates them. -/
def removeStates (state : StateId → Bool) : Database :=
  { db with
    states := db.states.erase fun k _ => state k
    patches := db.patches.filter fun p => !state p.state
    snapshots := db.snapshots.filter fun s => !state s.state
    manipulates := fun i => (db.manipulates i).filter fun k => !state k }

/-! ## What a deletion reaches -/

variable {db} {action : ActionId → Bool} {implementation : ImplementationId → Bool}
  {seed : Task → Bool} {t : TaskId} {task : Task}

theorem mem_withChildren {ids : List TaskId} (hget : db.tasks.get t = some task) (h : t ∈ ids) :
    t ∈ db.withChildren ids :=
  List.mem_map.mpr ⟨(t, task), Table.mem_select.mpr ⟨hget, by simp [h]⟩, rfl⟩

theorem withChildren_nil : db.withChildren [] = [] := by
  refine List.eq_nil_iff_forall_not_mem.mpr fun t ht => ?_
  obtain ⟨row, hrow, _⟩ := List.mem_map.mp ht
  obtain ⟨_, hp⟩ := Table.mem_select.mp hrow
  cases hparent : row.2.parent <;> cases hroot : row.2.root <;> simp [hparent, hroot] at hp

theorem mem_withDescendants (hget : db.tasks.get t = some task) (h : seed task = true) :
    t ∈ db.withDescendants seed := by
  unfold withDescendants
  have hmem : t ∈ (db.tasks.select fun _ task => seed task).map (·.1) :=
    List.mem_map.mpr ⟨(t, task), Table.mem_select.mpr ⟨hget, h⟩, rfl⟩
  generalize (db.tasks.select fun _ task => seed task).map (·.1) = ids at hmem
  generalize List.range db.tasks.next = steps
  induction steps generalizing ids with
  | nil => exact hmem
  | cons _ steps ih => exact ih _ (mem_withChildren hget hmem)

/-- Nothing is below nothing. -/
theorem withDescendants_none (h : ∀ t task, db.tasks.get t = some task → seed task = false) :
    db.withDescendants seed = [] := by
  unfold withDescendants
  have hnil : (db.tasks.select fun _ task => seed task).map (·.1) = [] := by
    refine List.eq_nil_iff_forall_not_mem.mpr fun t ht => ?_
    obtain ⟨row, hrow, _⟩ := List.mem_map.mp ht
    obtain ⟨hget, hp⟩ := Table.mem_select.mp hrow
    rw [h _ _ hget] at hp
    cases hp
  rw [hnil]
  generalize List.range db.tasks.next = steps
  induction steps with
  | nil => rfl
  | cons _ steps ih => rw [List.foldl_cons, withChildren_nil, ih]

theorem delete_ok {db' : Database} (h : db.delete action implementation = .ok db') :
    db' = db.remove (db.doomed action implementation) ∧
      db.isProtected (db.doomed action implementation) = false := by
  unfold delete at h
  dsimp only at h
  split at h
  · cases h
  · rename_i hp
    cases h
    exact ⟨rfl, Bool.eq_false_iff.mpr hp⟩

end Database
end Rekuest
