/-!
# Rekuest.Tree.Climb

Walking up a tree that is given by partial parent links.

* `Above up n a b`: `b` is `n` links above `a`.
* `climb up fuel a`: the walk up from `a`, at most `fuel` links. It reaches a top that is no
  further than the fuel (`climb_top`), and else the point that is as far up as the fuel
  (`climb_above`), which is no top (`Above.not_top`).
-/

namespace Tree

variable {α : Type} {up : α → Option α} {n m fuel : Nat} {a b c : α}

def Above (up : α → Option α) : Nat → α → α → Prop
  | 0, a, b => a = b
  | n + 1, a, b => ∃ c, up a = some c ∧ Above up n c b

def climb (up : α → Option α) : Nat → α → α
  | 0, a => a
  | fuel + 1, a => match up a with
    | none => a
    | some b => climb up fuel b

@[simp] theorem above_zero : Above up 0 a b ↔ a = b := Iff.rfl

theorem Above.succ (h : up a = some b) (hb : Above up n b c) : Above up (n + 1) a c := ⟨b, h, hb⟩

theorem climb_of_none (h : up a = none) : climb up fuel a = a := by
  cases fuel with
  | zero => rfl
  | succ fuel => simp [climb, h]

theorem climb_succ (h : up a = some b) : climb up (fuel + 1) a = climb up fuel b := by
  simp [climb, h]

theorem climb_top (h : Above up n a b) (htop : up b = none) (hn : n ≤ fuel) :
    climb up fuel a = b := by
  induction n generalizing a fuel with
  | zero =>
    cases h
    exact climb_of_none htop
  | succ n ih =>
    obtain ⟨c, hc, habove⟩ := h
    obtain ⟨k, rfl⟩ : ∃ k, fuel = k + 1 := ⟨fuel - 1, by omega⟩
    rw [climb_succ hc]
    exact ih habove (by omega)

theorem climb_above (h : Above up fuel a b) : climb up fuel a = b := by
  induction fuel generalizing a with
  | zero => exact h
  | succ fuel ih =>
    obtain ⟨c, hc, habove⟩ := h
    rw [climb_succ hc]
    exact ih habove

/-- Every height below that of an ancestor is that of one. -/
theorem Above.split (h : Above up n a c) (hm : m ≤ n) :
    ∃ b, Above up m a b ∧ Above up (n - m) b c := by
  induction m generalizing a n with
  | zero => exact ⟨a, rfl, h⟩
  | succ m ih =>
    obtain ⟨k, rfl⟩ : ∃ k, n = k + 1 := ⟨n - 1, by omega⟩
    obtain ⟨d, hd, habove⟩ := h
    obtain ⟨b, hb, hrest⟩ := ih habove (by omega)
    refine ⟨b, .succ hd hb, ?_⟩
    rwa [show k + 1 - (m + 1) = k - m by omega]

theorem Above.not_top (h : Above up n a b) (hn : 0 < n) : up a ≠ none := by
  obtain ⟨k, rfl⟩ : ∃ k, n = k + 1 := ⟨n - 1, by omega⟩
  obtain ⟨c, hc, _⟩ := h
  simp [hc]

/-- The last link below an ancestor. -/
theorem Above.last (h : Above up (n + 1) a c) : ∃ b, Above up n a b ∧ up b = some c := by
  obtain ⟨b, hb, hrest⟩ := h.split (m := n) (by omega)
  rw [show n + 1 - n = 1 by omega] at hrest
  obtain ⟨d, hd, rfl⟩ := hrest
  exact ⟨b, hb, hd⟩

end Tree
