import Rekuest.Footprint
import Rekuest.Interleave.Wp

/-!
# Rekuest.Timers.Pending

The timers that the server processes keep under one key, through programs that run alone.

* `Moment`: the inputs of an event, by a clock that never goes back.
* `Fewer`: the timers that are left were there before. `fewer_run`: so it is after a program that
  arms none of them.
-/

namespace Rekuest

open Interleave Interleave.Prog

structure Moment where
  inputs : Nat → Input
  /-- The clock when the event is over. -/
  till : Time
  ordered : ∀ n m, n ≤ m → (inputs n).now ≤ (inputs m).now
  ended : ∀ n, (inputs n).now ≤ till

/-- A moment without duration. -/
def Moment.still (t : Time) : Moment where
  inputs _ := { now := t }
  till := t
  ordered _ _ _ := le_refl t
  ended _ := le_refl t

theorem add_le_self {since delay : Time} (h : delay ≤ 0) : since + delay ≤ since := by
  have hle := Int.add_le_add_left h since
  rwa [Int.add_zero] at hle

section

variable {S : Settings} {registry : Registry} {key : Nat} {w w' : World} {i : Input}
  {server : ServerId}

/-- No timer of the registry is armed. -/
def Unarmed (registry : Registry) : Stmt → Prop
  | .timer (.schedule _ other _ _) => other ≠ registry
  | _ => True

/-- The timers under the key that are left were there before. -/
def Fewer (registry : Registry) (key : Nat) (w w' : World) : Prop :=
  ∀ server due, w'.timers server registry key = some due → w.timers server registry key = some due

theorem Fewer.refl : Fewer registry key w w := fun _ _ h => h

theorem Fewer.trans {w₁ : World} (h : Fewer registry key w w₁) (h' : Fewer registry key w₁ w') :
    Fewer registry key w w' :=
  fun server due hd => h server due (h' server due hd)

theorem Fewer.none (h : Fewer registry key w w') (hw : w.timers server registry key = none) :
    w'.timers server registry key = none := by
  cases hget : w'.timers server registry key with
  | none => rfl
  | some due => exact (h server due hget).symm.trans hw

theorem setTimer_timers {r r' : Registry} {k k' : Nat} {due : Option Time} {s : ServerId} :
    (w.setTimer server r k due).timers s r' k' =
      if s = server ∧ r' = r ∧ k' = k then due else w.timers s r' k' := rfl

theorem fewer_cancel {r : Registry} {k : Nat} :
    Fewer registry key w (w.setTimer server r k none) := by
  intro s due hd
  rw [setTimer_timers] at hd
  split at hd
  · cases hd
  · exact hd

theorem fewer_exec {c : Stmt} (hc : Unarmed registry c) :
    Fewer registry key w (exec S i c w).2 := by
  cases c with
  | timer c =>
    cases c with
    | schedule server' r k delay =>
      intro s due hd
      have hne : ¬ (s = server' ∧ registry = r ∧ key = k) := fun h => hc h.2.1.symm
      have hget : (w.setTimer server' r k (some (i.now + delay))).timers s registry key =
          some due := hd
      rwa [setTimer_timers, if_neg hne] at hget
    | cancel server' r k => exact fewer_cancel
  | getOrCreateCaller identity =>
    intro s due hd
    simp only [exec] at hd
    split at hd <;> exact hd
  | deliver c => cases c <;> exact fun _ _ hd => hd
  | _ => exact fun _ _ hd => hd

theorem fewer_run {α : Type} {p : Handler α}
    (hp : Prog.Issues (L := Statements) (Unarmed registry) p) {inputs : Nat → Input} :
    Fewer registry key w (runAlone S p inputs w) := by
  have hkeeps : Keeps (exec S) anyStep (Fewer registry key w) p :=
    hp.keeps fun _ _ _ hc _ h => h.trans (fewer_exec hc)
  exact hkeeps.run .refl meets_any

end

end Rekuest
