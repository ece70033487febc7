import Rekuest.Tasks.Control
import Rekuest.Tasks.Forest
import Rekuest.Tasks.Reference

/-!
# Rekuest.Tasks.Interrupt

Whether an interrupt reaches everything that still runs below its target.

* `ReachesSubtree`: the target and its open descendants are marked and told, once each, and no
  other task is touched.
* `Found`: an open descendant is the target, or was stored with the target as its root, and its
  agent has an address.
* `interrupt_reaches_iff`: the subtree is reached just when everything open in it is found. The
  descendants are looked up by their root, which only the child of a wrapper has.
-/

namespace Rekuest
namespace Interrupt

open Interleave Interleave.Prog
open Control
open Requeue (addressable)
open Reference (stretches)

variable {S : Settings} {i : Input} {w w' : World} {id t : TaskId} {task row : Task}

/-- The open tasks of the subtree got one INTERRUPTING event and one Interrupt each, and nothing
else was touched. -/
structure ReachesSubtree (id : TaskId) (w w' : World) : Prop where
  told : ∀ t row, w.db.tasks.get t = some row → row.isDone = false → w.db.Within id t →
    w'.db.eventsOf t = w.db.eventsOf t ++ [{ task := t, kind := .interrupting }] ∧
      (mailOf t w').Perm ((row.agent, .interrupt t) :: mailOf t w)
  spared : ∀ t, (∀ row, w.db.tasks.get t = some row → row.isDone = false → ¬ w.db.Within id t) →
    Spared t w w'

/-- The lookup of descendants finds the task, and its agent has an address. -/
def Found (id : TaskId) (w : World) (t : TaskId) (row : Task) : Prop :=
  addressable row.agent w = true ∧ (t = id ∨ row.root = some id)

theorem mem_targets (hg : w.db.tasks.get id = some task) (hd : task.isDone = false) :
    (t, row) ∈ w.db.targets .interrupt i id task ↔
      w.db.tasks.get t = some row ∧ row.isDone = false ∧ (t = id ∨ row.root = some id) := by
  constructor
  · intro h
    obtain h | h := List.mem_cons.mp h
    · cases h
      exact ⟨hg, hd, .inl rfl⟩
    · obtain ⟨hrow, hp⟩ := Table.mem_selectBy.mp h
      simp only [Bool.and_eq_true, decide_eq_true_eq, Bool.not_eq_true'] at hp
      exact ⟨hrow, hp.2, .inr hp.1⟩
  · intro ⟨hrow, hopen, hroot⟩
    obtain rfl | hroot := hroot
    · cases hg.symm.trans hrow
      exact List.mem_cons_self
    · exact List.mem_cons_of_mem _ (Table.mem_selectBy.mpr ⟨hrow, by simp [hroot, hopen]⟩)

/-- The target is nobody's root among its own descendants. -/
theorem targets_nodup (h : w.db.Forest) :
    ((w.db.targets .interrupt i id task).map Prod.fst).Nodup := by
  refine List.nodup_cons.mpr ⟨fun hmem => ?_, Table.keys_selectBy_nodup⟩
  obtain ⟨⟨t, row⟩, hx, heq⟩ := List.mem_map.mp hmem
  obtain ⟨hrow, hp⟩ := Table.mem_selectBy.mp hx
  simp only [Bool.and_eq_true, decide_eq_true_eq] at hp
  have hlt := h.root_lt hrow hp.1
  rw [show t = id from heq] at hlt
  exact Nat.lt_irrefl id hlt

/-- Telling the targets reaches the subtree just when everything open in it is among them. -/
theorem targets_reach_iff (h : w.db.Forest) (hg : w.db.tasks.get id = some task)
    (hd : task.isDone = false) :
    ReachesSubtree id w ((w.db.targets .interrupt i id task).foldl
        (World.controlled .interrupt) w) ↔
      ∀ t row, w.db.tasks.get t = some row → row.isDone = false → w.db.Within id t →
        Found id w t row := by
  have hmarked : ∀ t row, (t, row) ∈ w.db.targets .interrupt i id task →
      Marked .interrupt t row.agent w ((w.db.targets .interrupt i id task).foldl
        (World.controlled .interrupt) w) := fun t row hmem =>
    marked_controlAll (targets_nodup h) hmem
  constructor
  · intro hreach t row hrow hopen hwithin
    obtain ⟨hevents, hmail⟩ := hreach.told t row hrow hopen hwithin
    by_cases hmem : t ∈ (w.db.targets .interrupt i id task).map Prod.fst
    · obtain ⟨⟨t', row'⟩, hx, heq⟩ := List.mem_map.mp hmem
      cases heq
      obtain ⟨hrow', _, hroot⟩ := (mem_targets hg hd).mp hx
      cases hrow.symm.trans hrow'
      refine ⟨?_, hroot⟩
      by_contra hmute
      have hsame := (hmarked _ _ hx).mail
      rw [if_neg hmute] at hsame
      have hlength := (hmail.symm.trans hsame).length_eq
      simp at hlength
    · have hspared : Spared t w ((w.db.targets .interrupt i id task).foldl
          (World.controlled .interrupt) w) := spared_controlAll hmem
      rw [hspared.events] at hevents
      have hlength := congrArg List.length hevents
      simp at hlength
  · intro hfound
    constructor
    · intro t row hrow hopen hwithin
      obtain ⟨haddress, hroot⟩ := hfound t row hrow hopen hwithin
      have hmark := hmarked t row ((mem_targets hg hd).mpr ⟨hrow, hopen, hroot⟩)
      refine ⟨hmark.events, ?_⟩
      have hmail := hmark.mail
      rwa [if_pos haddress] at hmail
    · intro t hout
      refine spared_controlAll fun hmem => ?_
      obtain ⟨⟨t', row⟩, hx, heq⟩ := List.mem_map.mp hmem
      cases heq
      obtain ⟨hrow, hopen, hroot⟩ := (mem_targets hg hd).mp hx
      refine hout row hrow hopen ?_
      obtain rfl | hroot := hroot
      · exact .refl
      · exact h.within_of_root hrow hroot

/-- **An interrupt reaches the running subtree** of an open task, in every world that the calls
reach, just when each open task of the subtree is the target or has it as its root, and its agent has
an address. -/
theorem interrupt_reaches_iff (S : Settings) (w : World) (hw : Reached S w) (id : TaskId)
    (task : Task) (hg : w.db.tasks.get id = some task) (hd : task.isDone = false)
    (i : Nat → Input) :
    ReachesSubtree id w (runAlone S (Backend.requestControl .interrupt id) i w) ↔
      ∀ t row, w.db.tasks.get t = some row → row.isDone = false → w.db.Within id t →
        Found id w t row := by
  have hrun : wp (exec S) anyStep (Backend.requestControl .interrupt id) (fun _ w' =>
      ReachesSubtree id w w' ↔ ∀ t row, w.db.tasks.get t = some row → row.isDone = false →
        w.db.Within id t → Found id w t row) w :=
    wp_requestControl hw.linked hg hd fun i => targets_reach_iff hw.forest hg hd
  exact wp_run hrun meets_any

instance : Decidable (Found id w t row) := inferInstanceAs (Decidable (_ ∧ _))

section Dependent

/-- Task 1, on the given implementation, and then one that depends on it. -/
def assigns (implementation : ImplementationId) : Nat → Call
  | 0 => .postman (.assign requester { implementation := some implementation })
  | _ => .postman (.assign requester { implementation := some 1, parent := some 1 })

/-- The calls that are given steps run to their end, one after the other. -/
def assigned (implementation : ImplementationId) (steps : List (Nat × Nat)) : World :=
  (Sys.run (exec {}) ⟨Virtual.wrapperWorld false, fun p => (assigns implementation p).code {}⟩
    (stretches steps)).shared

theorem reached_assigned {implementation : ImplementationId} {steps : List (Nat × Nat)} :
    Reached {} (assigned implementation steps) :=
  ⟨Virtual.wrapperWorld false, assigns implementation, stretches steps, fun _ => rfl, rfl⟩

/-- Task 1 is a wrapper, and its child runs. -/
def wrapped : World := assigned 2 [(0, 20)]

theorem interrupt_reaches_wrapped : ReachesSubtree 1 wrapped
    (runAlone {} (Backend.requestControl .interrupt 1) (fun _ => {}) wrapped) := by
  have htarget : (wrapped.db.tasks.get 1).map (·.isDone) = some false := by decide +kernel
  obtain ⟨task, hg, hd⟩ := Option.map_eq_some_iff.mp htarget
  have hall : ∀ x ∈ wrapped.db.tasks.select fun _ _ => true, Found 1 wrapped x.1 x.2 := by
    decide +kernel
  refine (interrupt_reaches_iff {} wrapped reached_assigned 1 task hg hd _).mpr ?_
  intro t row hrow _ _
  exact hall (t, row) (Table.mem_select.mpr ⟨hrow, rfl⟩)

/-- Task 2 runs with task 1 as its parent. -/
def dependent : World := assigned 1 [(0, 20), (1, 20)]

/-- The open task 2 descends from task 1, and hears nothing of its interrupt. -/
theorem interrupt_misses_dependent : Reached {} dependent ∧ ¬ ReachesSubtree 1 dependent
    (runAlone {} (Backend.requestControl .interrupt 1) (fun _ => {}) dependent) := by
  refine ⟨reached_assigned, fun h => ?_⟩
  have hchild : (dependent.db.tasks.get 2).map (fun row => (row.parent, row.isDone)) =
      some (some 1, false) := by decide +kernel
  obtain ⟨row, hg, heq⟩ := Option.map_eq_some_iff.mp hchild
  obtain ⟨hparent, hd⟩ := Prod.mk.inj heq
  obtain ⟨hevents, _⟩ := h.told 2 row hg hd (.single ⟨row, hg, hparent⟩)
  have hlength := congrArg List.length hevents
  have hsilent : ((runAlone {} (Backend.requestControl .interrupt 1) (fun _ => {})
      dependent).db.eventsOf 2).length = (dependent.db.eventsOf 2).length := by decide +kernel
  rw [hsilent] at hlength
  simp at hlength

end Dependent

end Interrupt
end Rekuest
