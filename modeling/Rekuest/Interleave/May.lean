import Mathlib.Data.List.Forall2
import Rekuest.Interleave.Wp

/-!
# Rekuest.Interleave.May

What a program may end with, where its statements only read.

* `Reaches real r p`: some answers lead the program to the result `r`.
* `reaches_bind_ok`, `reaches_bind_error`, `reaches_collect_ok`, `reaches_collect_error`: through
  sequences and loops.
* `exists_reaches`: it ends with something.
* `reaches_iff_run`: the results that are reached are those of the runs.
-/

namespace Interleave
namespace Prog

variable {L : Lang} {ε α β γ ι σ : Type} {real : (c : L.Stmt) → L.Ans c → Prop}

/-- Some answers of `real` lead to the result. -/
def Reaches (real : (c : L.Stmt) → L.Ans c → Prop) (r : Except ε α) : Prog L ε α → Prop
  | .ret a => .ok a = r
  | .fail e => .error e = r
  | .stmt c k => ∃ a, real c a ∧ (k a).Reaches real r

theorem reaches_bind_ok {p : Prog L ε α} {f : α → Prog L ε β} {b : β} :
    (p.bind f).Reaches real (.ok b) ↔
      ∃ a, p.Reaches real (.ok a) ∧ (f a).Reaches real (.ok b) := by
  induction p with
  | ret a => simp [Reaches]
  | fail e => simp [Reaches]
  | stmt c k ih =>
    simp only [stmt_bind, Reaches, ih]
    constructor
    · rintro ⟨x, hx, a, ha, hb⟩
      exact ⟨a, ⟨x, hx, ha⟩, hb⟩
    · rintro ⟨a, ⟨x, hx, ha⟩, hb⟩
      exact ⟨x, hx, a, ha, hb⟩

theorem reaches_bind_error {p : Prog L ε α} {f : α → Prog L ε β} {e : ε} :
    (p.bind f).Reaches real (.error e) ↔
      p.Reaches real (.error e) ∨ ∃ a, p.Reaches real (.ok a) ∧ (f a).Reaches real (.error e) := by
  induction p with
  | ret a => simp [Reaches]
  | fail e => simp [Reaches]
  | stmt c k ih =>
    simp only [stmt_bind, Reaches, ih]
    constructor
    · rintro ⟨x, hx, h | ⟨a, ha, he⟩⟩
      · exact .inl ⟨x, hx, h⟩
      · exact .inr ⟨a, ⟨x, hx, ha⟩, he⟩
    · rintro (⟨x, hx, h⟩ | ⟨a, ⟨x, hx, ha⟩, he⟩)
      · exact ⟨x, hx, .inl h⟩
      · exact ⟨x, hx, .inr ⟨a, ha, he⟩⟩

/-- A loop that comes to its end: each value is one that its body may return. -/
theorem reaches_collect_ok {f : β → Prog L ε γ} {xs : List β} {ys : List γ} :
    (collect f xs).Reaches real (.ok ys) ↔
      List.Forall₂ (fun x y => (f x).Reaches real (.ok y)) xs ys := by
  induction xs generalizing ys with
  | nil =>
    rw [List.forall₂_nil_left_iff]
    constructor
    · intro h
      exact (Except.ok.inj h).symm
    · intro h
      exact congrArg Except.ok h.symm
  | cons x xs ih =>
    simp only [collect, reaches_bind_ok, ih, Reaches, Except.ok.injEq, List.forall₂_cons_left_iff]
    constructor
    · rintro ⟨y, hy, ys, hys, rfl⟩
      exact ⟨y, ys, hy, hys, rfl⟩
    · rintro ⟨y, ys, hy, hys, rfl⟩
      exact ⟨y, hy, ys, hys, rfl⟩

/-- A loop whose body returns one value, and only under a condition. -/
theorem reaches_collect_iff {f : β → Prog L ε γ} {P : β → Prop} {g : β → γ}
    (hf : ∀ x y, (f x).Reaches real (.ok y) ↔ P x ∧ g x = y) {xs : List β} {ys : List γ} :
    (collect f xs).Reaches real (.ok ys) ↔ (∀ x ∈ xs, P x) ∧ xs.map g = ys := by
  simp only [reaches_collect_ok, hf]
  rw [List.forall₂_and_left, ← List.forall₂_map_left_iff, List.forall₂_eq_eq_eq]

/-- A loop that fails: its body may fail at one of the items. -/
theorem reaches_collect_error {f : β → Prog L ε γ} {xs : List β} {e : ε}
    (h : (collect f xs).Reaches real (.error e)) : ∃ x ∈ xs, (f x).Reaches real (.error e) := by
  induction xs with
  | nil => cases h
  | cons x xs ih =>
    simp only [collect, reaches_bind_error, Reaches, reduceCtorEq, and_false, exists_false,
      or_false] at h
    rcases h with h | ⟨y, _, h⟩
    · exact ⟨x, List.mem_cons_self, h⟩
    · obtain ⟨x', hx', h⟩ := ih h
      exact ⟨x', List.mem_cons_of_mem _ hx', h⟩

/-- Where every statement has an answer, a program that may not return may fail. -/
theorem exists_reaches (hreal : ∀ c, ∃ a, real c a) (p : Prog L ε α) :
    ∃ r, p.Reaches real r := by
  induction p with
  | ret a => exact ⟨_, rfl⟩
  | fail e => exact ⟨_, rfl⟩
  | stmt c k ih =>
    obtain ⟨a, ha⟩ := hreal c
    obtain ⟨r, hr⟩ := ih a
    exact ⟨r, a, ha, hr⟩

/-! ## Runs -/

section Runs

variable {X : Exec L ι σ} {P : L.Stmt → Prop} {good : ι → Prop} {s : σ}

/-- The answers that statements give in one state, with inputs of a kind. -/
def Answered (X : Exec L ι σ) (good : ι → Prop) (s : σ) (c : L.Stmt) (a : L.Ans c) : Prop :=
  ∃ i, good i ∧ (X i c s).1 = a

/-- What a program that only reads may end with is what some run of it ends with. -/
theorem reaches_iff_run (hX : ∀ i c s, P c → (X i c s).2 = s) (hgood : ∃ i, good i)
    {p : Prog L ε α} (hp : p.Issues P) {r : Except ε α} :
    p.Reaches (Answered X good s) r ↔
      ∃ inputs : Nat → ι, (∀ n, good (inputs n)) ∧ (run X p inputs s).result = r := by
  obtain ⟨i₀, hi₀⟩ := hgood
  induction p with
  | ret a =>
    constructor
    · intro h
      exact ⟨fun _ => i₀, fun _ => hi₀, h⟩
    · rintro ⟨_, _, h⟩
      exact h
  | fail e =>
    constructor
    · intro h
      exact ⟨fun _ => i₀, fun _ => hi₀, h⟩
    · rintro ⟨_, _, h⟩
      exact h
  | stmt c k ih =>
    constructor
    · rintro ⟨_, ⟨i, hi, rfl⟩, hr⟩
      obtain ⟨inputs, hinputs, hrun⟩ := (ih _ (hp.2 _)).mp hr
      refine ⟨fun n => n.casesOn i inputs, fun n => ?_, ?_⟩
      · cases n with
        | zero => exact hi
        | succ n => exact hinputs n
      · show (run X (k (X i c s).1) inputs (X i c s).2).result = r
        rw [hX i c s hp.1]
        exact hrun
    · rintro ⟨inputs, hinputs, hrun⟩
      rw [run_stmt, hX _ c s hp.1] at hrun
      exact ⟨_, ⟨inputs 0, hinputs 0, rfl⟩,
        (ih _ (hp.2 _)).mpr ⟨fun n => inputs (n + 1), fun n => hinputs (n + 1), hrun⟩⟩

end Runs

end Prog
end Interleave
