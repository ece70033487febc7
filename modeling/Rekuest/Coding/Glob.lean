import Mathlib.Data.List.Infix

/-!
# Rekuest.Coding.Glob

Patterns in which `*` stands for any characters and `?` for any one.

* `fits`: the texts that a pattern stands for. `Plain`: a pattern with neither, nor with the sign of
  variables.
* `fits_plain`, `fits_star`: a plain pattern stands for itself, and with `*` behind it for what begins
  with it.
-/

namespace Coding

/-- Does the text fit the pattern? -/
def fits : List Char → List Char → Bool
  | [], text => text.isEmpty
  | c :: pattern, text =>
    if c = '*' then text.tails.any (fits pattern)
    else
      match text with
      | [] => false
      | d :: text => (c = '?' || c = d) && fits pattern text

def Plain (pattern : List Char) : Prop := ∀ c ∈ pattern, c ≠ '*' ∧ c ≠ '?' ∧ c ≠ '$'

instance (pattern : List Char) : Decidable (Plain pattern) := List.decidableBAll _ pattern

variable {p q text : List Char}

theorem Plain.append (hp : Plain p) (hq : Plain q) : Plain (p ++ q) := by
  intro c hc
  rcases List.mem_append.mp hc with hc | hc
  · exact hp c hc
  · exact hq c hc

/-- A plain beginning is in the text as it is. -/
theorem fits_append (hp : Plain p) : fits (p ++ q) text = true ↔ ∃ r, text = p ++ r ∧ fits q r = true := by
  induction p generalizing text with
  | nil => simp
  | cons c p ih =>
    have hc := hp c (by simp)
    have hrest : Plain p := fun d hd => hp d (by simp [hd])
    rw [List.cons_append]
    cases text with
    | nil => simp [fits, hc.1]
    | cons d text =>
      simp only [fits, if_neg hc.1, hc.2.1, decide_false, Bool.false_or, Bool.and_eq_true,
        decide_eq_true_eq, ih hrest, List.cons_append, List.cons.injEq]
      constructor
      · intro h
        obtain ⟨rfl, r, rfl, hr⟩ := h
        exact ⟨r, ⟨rfl, rfl⟩, hr⟩
      · intro h
        obtain ⟨r, ⟨rfl, rfl⟩, hr⟩ := h
        exact ⟨rfl, r, rfl, hr⟩

theorem fits_plain (hp : Plain p) : fits p text = true ↔ text = p := by
  have h : fits (p ++ []) text = true ↔ ∃ r, text = p ++ r ∧ fits [] r = true := fits_append hp
  rw [List.append_nil] at h
  rw [h]
  constructor
  · intro hfits
    obtain ⟨r, rfl, hr⟩ := hfits
    rw [List.isEmpty_iff.mp hr, List.append_nil]
  · intro heq
    exact ⟨[], by simp [heq], rfl⟩

theorem fits_star (hp : Plain p) : fits (p ++ ['*']) text = true ↔ p <+: text := by
  rw [fits_append hp]
  have hany : ∀ r, fits ['*'] r = true := by
    intro r
    simp [fits]
  constructor
  · intro h
    obtain ⟨r, rfl, _⟩ := h
    exact List.prefix_append p r
  · intro h
    obtain ⟨r, rfl⟩ := h
    exact ⟨r, rfl, hany r⟩

end Coding
