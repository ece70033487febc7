import Rekuest.Registry.Declarations
import Rekuest.Registry.Turns

/-!
# Rekuest.Registry.Repoint

What is lost when an interface is declared with another definition.

* `Preserves`: the implementation keeps its row, and no task, event, dependency, resolution or
  other implementation is deleted.
* `Unused`: nothing that a cascade from the action or the implementation would reach.
* `preserves_iff`: the deletion of the action that is left takes the implementation with it, which
  is written again, and all that refers to either, which is not.
-/

namespace Rekuest
namespace Registration

open Interleave (Table)

/-- The implementation `ref` is still there, and so are all rows that were. -/
structure Preserves (db db' : Database) (ref : ImplementationRef) : Prop where
  row : db'.implementations.get ref.1 = some ref.2
  tasks : ∀ t, (db.tasks.get t).isSome = true → (db'.tasks.get t).isSome = true
  events : db'.events = db.events
  dependencies : ∀ k, (db.dependencies.get k).isSome = true →
    (db'.dependencies.get k).isSome = true
  resolutions : ∀ k, (db.resolutions.get k).isSome = true → (db'.resolutions.get k).isSome = true
  implementations : ∀ j, (db.implementations.get j).isSome = true →
    (db'.implementations.get j).isSome = true

/-- No task is of the action, and no task, dependency or resolution of the implementation. -/
structure Unused (db : Database) (ref : ImplementationRef) : Prop where
  tasks : ∀ t task, db.tasks.get t = some task → task.action ≠ ref.2.action ∧
    task.implementation ≠ some ref.1
  dependencies : ∀ k row, db.dependencies.get k = some row → row.implementation ≠ ref.1
  resolutions : ∀ k row, db.resolutions.get k = some row → row.implementation ≠ ref.1

variable {H : Hashing} {db db₁ db₂ : Database} {agentId : AgentId} {agent : Agent}
  {input : ImplementationInput} {ref : ImplementationRef} {old : Action}

/-- What the deletion of the action of `ref` reaches, if `ref` is its only implementation. -/
def reached (db : Database) (ref : ImplementationRef) : Doomed :=
  db.doomed (fun j => j = ref.2.action) fun _ => false

section

variable (hget : db.implementations.get ref.1 = some ref.2)
  (hcount : implementationCount db ref.2.action = 1)

include hget hcount

theorem reached_implementation {j : ImplementationId} :
    (reached db ref).implementation j = true ↔ j = ref.1 := by
  simp only [reached, Database.doomed, Bool.false_or]
  constructor
  · intro h
    cases hj : db.implementations.get j with
    | none =>
      rw [hj] at h
      cases h
    | some row =>
      rw [hj] at h
      exact implementationCount_eq_one hcount hget rfl hj (of_decide_eq_true h)
  · intro h
    rw [h, hget]
    simp

/-- A deletion that reaches nothing else leaves all other rows. -/
theorem preserved_of_unused (hunused : Unused db ref) :
    let db' := db.remove (reached db ref)
    db'.tasks = db.tasks ∧ db'.events = db.events ∧ db'.dependencies = db.dependencies ∧
      db'.resolutions = db.resolutions ∧
      ∀ j, j ≠ ref.1 → (db.implementations.get j).isSome = true →
        (db'.implementations.get j).isSome = true := by
  have hreached : ∀ j, j ≠ ref.1 → (reached db ref).implementation j = false :=
    fun j hj => Bool.eq_false_iff.mpr fun h => hj ((reached_implementation hget hcount).mp h)
  have hresolution : ∀ k, (reached db ref).resolution k = false := by
    intro k
    cases hk : db.resolutions.get k with
    | none => simp [reached, Database.doomed, hk]
    | some row =>
      have hfalse := hreached _ (hunused.resolutions k row hk)
      simpa [reached, Database.doomed, hk] using hfalse
  have htask : ∀ t, (reached db ref).task t = false := by
    have hnone : db.withDescendants (fun task => decide (task.action = ref.2.action) ||
        task.implementation.any (reached db ref).implementation ||
        task.resolution.any (reached db ref).resolution) = [] := by
      refine Database.withDescendants_none fun t task ht => ?_
      obtain ⟨haction, himplementation⟩ := hunused.tasks t task ht
      simp only [Bool.or_eq_false_iff, decide_eq_false_iff_not]
      refine ⟨⟨haction, ?_⟩, ?_⟩
      · cases hi : task.implementation with
        | none => rfl
        | some i => exact hreached i fun h => himplementation (by rw [hi, h])
      · cases task.resolution with
        | none => rfl
        | some r => exact hresolution r
    intro t
    exact congrArg (fun ids : List TaskId => ids.contains t) hnone
  refine ⟨?_, ?_, ?_, ?_, fun j hj hsome => ?_⟩
  · exact Table.erase_eq_self fun t _ _ => htask t
  · refine List.filter_eq_self.mpr fun e _ => ?_
    cases e.delegatedTo <;> simp [htask]
  · exact Table.erase_eq_self fun k row hk => hreached _ (hunused.dependencies k row hk)
  · exact Table.erase_eq_self fun k _ _ => hresolution k
  · obtain ⟨row, hrow⟩ := Option.isSome_iff_exists.mp hsome
    simp only [Database.remove, Table.get_adjust, Table.get_erase, Option.isSome_map, hrow]
    simp [hreached j hj]

end

/-- A task of the action, or of its only implementation, is deleted. -/
theorem task_reached {t : TaskId} {task : Task} (ht : db.tasks.get t = some task)
    (hget : db.implementations.get ref.1 = some ref.2)
    (h : task.action = ref.2.action ∨ task.implementation = some ref.1) :
    (db.remove (reached db ref)).tasks.get t = none := by
  have hdoomed : (reached db ref).task t = true := by
    refine List.contains_iff_mem.mpr (Database.mem_withDescendants ht ?_)
    rcases h with h | h
    · simp [h]
    · simp [h, hget]
  simp [Database.remove, ht, hdoomed]

theorem Unused.congr (hframe : clearActions db₁ = clearActions db) (h : Unused db ref) :
    Unused db₁ ref where
  tasks := by
    rw [(actionFrame hframe).tasks]
    exact h.tasks
  dependencies := by
    rw [(actionFrame hframe).dependencies]
    exact h.dependencies
  resolutions := by
    rw [(actionFrame hframe).resolutions]
    exact h.resolutions

section

variable {r : Registered} (hfound : findImplementation db agentId input.interface = some ref)

include hfound

/-- The definition is of another action than the one that the interface has. -/
theorem abandonsAction_iff (hold : db.actions.get ref.2.action = some old)
    (hother : (old.key, old.version) ≠ (input.definition.key, input.definition.version)) :
    AbandonsAction db agentId agent input ↔ implementationCount db ref.2.action = 1 := by
  have hne : ref.2.action ≠ actionKey db agent input.definition := by
    intro hsame
    cases hf : findAction db agent input.definition with
    | none =>
      rw [actionKey, hf] at hsame
      have hnone : db.actions.get ref.2.action = none := by
        rw [hsame]
        exact Table.get_next
      rw [hold] at hnone
      cases hnone
    | some a =>
      obtain ⟨k, hk, hget, hcoordinate⟩ := findAction_eq_some hf
      rw [actionKey, hf, Option.bind_some, hk] at hsame
      rw [hsame, Option.getD_some, hget] at hold
      rw [Option.some.inj hold] at hcoordinate
      simp only [Action.coordinate, Prod.mk.injEq] at hcoordinate
      exact hother (by rw [hcoordinate.2.2.1, hcoordinate.2.2.2])
  rw [AbandonsAction, hfound]
  constructor
  · intro h
    obtain ⟨ref', href, _, hcount⟩ := h
    cases href
    exact hcount
  · intro hcount
    exact ⟨ref, rfl, hne, hcount⟩

omit hfound in
/-- Where no action is deleted all rows are preserved. -/
theorem preserves_of_kept (h : createImplementation H db agentId agent input = .ok r)
    (hkept : ¬ AbandonsAction db agentId agent input) : Preserves db r.db r.implementation := by
  obtain ⟨db₁, db₂, _, _, hframe, hdropped, hinstalled⟩ := createImplementation_ok h
  have hsynced := synced_of_foldlM hinstalled.dependencies
  have hafter := implementationFrame hinstalled.frame
  have hbefore := actionFrame hframe
  rcases dropped_cases hframe hdropped with ⟨_, hdb⟩ | ⟨_, habandons, _⟩
  · subst hdb
    refine {
      row := hinstalled.get
      tasks := fun t ht => ?_
      events := by rw [hafter.events, hbefore.events]
      dependencies := fun k hk => ?_
      resolutions := fun k hk => ?_
      implementations := fun j hj => ?_ }
    · rwa [hafter.tasks, hbefore.tasks]
    · obtain ⟨row, hrow⟩ := Option.isSome_iff_exists.mp hk
      rw [← hbefore.dependencies] at hrow
      rw [hsynced.old k row hrow]
      rfl
    · rwa [hafter.resolutions, hbefore.resolutions]
    · by_cases hown : j = r.implementation.1
      · rw [hown, hinstalled.get]
        rfl
      · rwa [hinstalled.others j hown, hbefore.implementations]
  · exact absurd habandons hkept

/-- Where the action is deleted all rows are preserved if and only if none refers to it. -/
theorem preserves_of_abandons (h : createImplementation H db agentId agent input = .ok r)
    (habandons : AbandonsAction db agentId agent input)
    (hcount : implementationCount db ref.2.action = 1) :
    Preserves db r.db r.implementation ↔ Unused db ref := by
  have hkey := createImplementation_key h
  rw [implementationKey, hfound, Option.map_some, Option.getD_some] at hkey
  obtain ⟨hget, _, _⟩ := findImplementation_eq_some hfound
  obtain ⟨db₁, db₂, _, _, hframe, hdropped, hinstalled⟩ := createImplementation_ok h
  have hsynced := synced_of_foldlM hinstalled.dependencies
  have hafter := implementationFrame hinstalled.frame
  have hbefore := actionFrame hframe
  rw [← hbefore.implementations] at hget
  have hcount₁ : implementationCount db₁ ref.2.action = 1 := by
    rw [implementationCount, hbefore.implementations]
    exact hcount
  have hdb : db₂ = db₁.remove (reached db₁ ref) := by
    rcases dropped_cases hframe hdropped with ⟨hnot, _⟩ | ⟨ref', _, href, hdb, _⟩
    · exact absurd habandons hnot
    · rw [hfound] at href
      cases href
      exact hdb
  constructor
  · intro hpreserves
    refine {
      tasks := fun t task ht => ?_
      dependencies := fun k row hk hi => ?_
      resolutions := fun k row hk hi => ?_ }
    · have hthere := hpreserves.tasks t (by rw [ht]; rfl)
      rw [hafter.tasks, hdb] at hthere
      rw [← hbefore.tasks] at ht
      by_contra hsome
      rw [not_and_or, not_not, not_not] at hsome
      rw [task_reached ht hget hsome] at hthere
      cases hthere
    · have hthere := hpreserves.dependencies k (by rw [hk]; rfl)
      rw [← hbefore.dependencies] at hk
      have hgone : db₂.dependencies.get k = none := by
        have hdoomed := (reached_implementation hget hcount₁).mpr hi
        rw [hdb]
        simp [Database.remove, hk, hdoomed]
      have hlt : k < db₂.dependencies.next := by
        have hlt := Table.lt_next hk
        rw [hdb]
        exact hlt
      rw [hsynced.later k hlt hgone] at hthere
      cases hthere
    · have hthere := hpreserves.resolutions k (by rw [hk]; rfl)
      rw [hafter.resolutions, hdb] at hthere
      rw [← hbefore.resolutions] at hk
      have hdoomed : (reached db₁ ref).resolution k = true := by
        have himplementation := (reached_implementation hget hcount₁).mpr hi
        simpa [reached, Database.doomed, hk] using himplementation
      simp [Database.remove, hk, hdoomed] at hthere
  · intro hunused
    obtain ⟨htasks, hevents, hdependencies, hresolutions, himplementations⟩ :=
      preserved_of_unused hget hcount₁ (hunused.congr hframe)
    rw [← hdb] at htasks hevents hdependencies hresolutions himplementations
    refine {
      row := hinstalled.get
      tasks := fun t ht => ?_
      events := by rw [hafter.events, hevents, hbefore.events]
      dependencies := fun k hk => ?_
      resolutions := fun k hk => ?_
      implementations := fun j hj => ?_ }
    · rwa [hafter.tasks, htasks, hbefore.tasks]
    · obtain ⟨row, hrow⟩ := Option.isSome_iff_exists.mp hk
      rw [← hbefore.dependencies, ← hdependencies] at hrow
      rw [hsynced.old k row hrow]
      rfl
    · rwa [hafter.resolutions, hresolutions, hbefore.resolutions]
    · by_cases hown : j = r.implementation.1
      · rw [hown, hinstalled.get]
        rfl
      · rw [hinstalled.others j hown]
        rw [hkey] at hown
        rw [← hbefore.implementations] at hj
        exact himplementations j hown hj

/-- A registration under another key or version preserves all rows exactly where the action that
the interface leaves has other implementations, or where nothing refers to it or to the
implementation. -/
theorem preserves_iff (hold : db.actions.get ref.2.action = some old)
    (hother : (old.key, old.version) ≠ (input.definition.key, input.definition.version))
    (h : createImplementation H db agentId agent input = .ok r) :
    r.implementation.1 = ref.1 ∧
      (Preserves db r.db r.implementation ↔
        implementationCount db ref.2.action ≠ 1 ∨ Unused db ref) := by
  have hkey := createImplementation_key h
  rw [implementationKey, hfound, Option.map_some, Option.getD_some] at hkey
  refine ⟨hkey, ?_⟩
  have habandons : AbandonsAction db agentId agent input ↔
      implementationCount db ref.2.action = 1 := abandonsAction_iff hfound hold hother
  by_cases hcount : implementationCount db ref.2.action = 1
  · rw [preserves_of_abandons hfound h (habandons.mpr hcount) hcount]
    exact ⟨.inr, fun hcase => hcase.resolve_left (not_not.mpr hcount)⟩
  · have hpreserves := preserves_of_kept h fun hyes => hcount (habandons.mp hyes)
    exact ⟨fun _ => .inl hcount, fun _ => hpreserves⟩

end

/-- The microscope with one interface. -/
def acquiring : Database :=
  match createImplementation naming laboratory 1 microscope (declare "acquire" "acquire") with
  | .ok r => r.db
  | .error _ => laboratory

/-- The interface of `acquiring`. -/
def acquireRef : ImplementationRef :=
  (1, { interface := "acquire", action := 1, agent := 1, release := "1.0" })

def acquireAction : Action :=
  microscope.newAction "acquire/1/acquire" (declare "acquire" "acquire").definition

/-- Nothing was ever assigned to the interface. -/
theorem unassigned_interface_preserved :
    ∃ r, createImplementation naming acquiring 1 microscope (declare "acquire" "scan") = .ok r ∧
      Preserves acquiring r.db r.implementation := by
  have hfound : findImplementation acquiring 1 "acquire" = some acquireRef := rfl
  have hold : acquiring.actions.get 1 = some acquireAction := rfl
  have hother : (acquireAction.key, acquireAction.version) ≠ ("scan", "1") := by decide
  have hunused : Unused acquiring acquireRef :=
    ⟨fun _ _ h => (by cases h), fun _ _ h => (by cases h), fun _ _ h => (by cases h)⟩
  have hiff := @preserves_iff naming acquiring 1 microscope (declare "acquire" "scan") acquireRef
    acquireAction _ hfound hold hother rfl
  exact ⟨_, rfl, hiff.2.mpr (.inr hunused)⟩

/-- A task of the microscope. -/
def snap : Task where
  implementation := some 1
  action := 1
  reference := "snap"
  agent := 1
  latestEventKind := .completed
  latestInstructKind := .assign
  isDone := true

/-- The interface is declared with another definition. The task that ran on it is deleted. -/
theorem repointed_interface_loses_tasks :
    let db := { acquiring with tasks := Table.empty.insert snap }
    ∃ r, createImplementation naming db 1 microscope (declare "acquire" "scan") = .ok r ∧
      r.db.tasks.get 1 = none ∧ ¬Preserves db r.db r.implementation := by
  intro db
  refine ⟨_, rfl, rfl, fun h => ?_⟩
  have hthere := h.tasks 1 rfl
  cases hthere

end Registration
end Rekuest
