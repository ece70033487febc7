import Mathlib.Data.List.Basic

/-!
# Rekuest.Coding.Names

Names that are built from parts with underscores between them.

* `snake`: one part before another. `words`: what stands between the underscores of a name.
* `words_snake`: the words of a name are those of its parts, so that names with other words differ.
-/

namespace Coding

/-- `f"{a}_{b}"`. -/
def snake (a b : String) : String := a ++ "_" ++ b

/-- What stands between the underscores. -/
def words (name : String) : List (List Char) := name.toList.splitOn '_'

/-- A number, as a word. -/
def numeral (n : Nat) : List Char := Nat.toDigits 10 n

@[simp] theorem words_snake (a b : String) : words (snake a b) = words a ++ words b := by
  simp [words, snake, List.splitOn_append_cons_self]

theorem words_of_plain {name : String} (h : '_' ∉ name.toList) : words name = [name.toList] :=
  List.splitOn_eq_singleton h

theorem isDigit_of_mem_numeral {n : Nat} {c : Char} (h : c ∈ numeral n) : c.isDigit = true :=
  Nat.isDigit_of_mem_toDigits (by decide) (by decide) h

@[simp] theorem words_repr (n : Nat) : words n.repr = [numeral n] := by
  have hlist : n.repr.toList = numeral n := by simp [numeral]
  rw [← hlist]
  refine words_of_plain fun h => ?_
  rw [hlist] at h
  exact absurd (isDigit_of_mem_numeral h) (by decide)

theorem words_toString (n : Nat) : words (toString n) = [numeral n] := words_repr n

/-- The part before the last is told by the name. -/
theorem snake_left_inj {a b c : String} : snake a c = snake b c ↔ a = b := by
  constructor
  · intro h
    have hlist := congrArg String.toList h
    simp only [snake, String.toList_append] at hlist
    exact String.toList_inj.mp (List.append_cancel_right (List.append_cancel_right hlist))
  · rintro rfl
    rfl

theorem snake_right_inj {a b c : String} : snake a b = snake a c ↔ b = c := by
  constructor
  · intro h
    have hlist := congrArg String.toList h
    simp only [snake, String.toList_append] at hlist
    exact String.toList_inj.mp (List.append_cancel_left hlist)
  · rintro rfl
    rfl

@[simp] theorem numeral_inj {m n : Nat} : numeral m = numeral n ↔ m = n := by
  constructor
  · intro h
    unfold numeral at h
    rw [← Nat.ofDigitChars_ten_toDigits (n := m), h, Nat.ofDigitChars_ten_toDigits]
  · rintro rfl
    rfl

theorem eq_of_words {a b : String} (h : a = b) : words a = words b := congrArg words h

end Coding
