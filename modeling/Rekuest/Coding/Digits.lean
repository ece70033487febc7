import Mathlib.Data.List.Basic
import Mathlib.Data.List.TakeWhile

/-!
# Rekuest.Coding.Digits

Decimal and hexadecimal digits, as readers take them from the front of a text.

* `digits`: the decimal digits that a text begins with. `digits_toDigits`, `eq_zero_of_head`: those
  of a number, which begin with a zero for zero only.
* `codeUnit`: a UTF-16 unit, `\uXXXX`. `codeUnit_hex`: it is read from its hexadecimal digits.
* `span_append`: what is taken from the front of a text ends where the text does, if the rest goes
  on with something else.
-/

namespace Coding

/-- Digits, and what follows them. -/
def digits (cs : List Char) : List Char × List Char :=
  (cs.takeWhile Char.isDigit, cs.dropWhile Char.isDigit)

def hexDigit (c : Char) : Option Nat :=
  if c.isDigit then some (c.toNat - 48)
  else if 'a' ≤ c ∧ c ≤ 'f' then some (c.toNat - 87)
  else if 'A' ≤ c ∧ c ≤ 'F' then some (c.toNat - 55)
  else none

/-- A UTF-16 unit, `\uXXXX`. -/
def codeUnit : List Char → Option (Nat × List Char)
  | '\\' :: 'u' :: a :: b :: c :: d :: r => do
    let a ← hexDigit a
    let b ← hexDigit b
    let c ← hexDigit c
    let d ← hexDigit d
    return (((a * 16 + b) * 16 + c) * 16 + d, r)
  | _ => none

/-! ## Rests -/

variable {cs r : List Char} {n : Nat}

theorem span_append {p : Char → Bool} (hr : ∀ c ∈ r.head?, p c = false) :
    (cs ++ r).takeWhile p = cs.takeWhile p ∧ (cs ++ r).dropWhile p = cs.dropWhile p ++ r := by
  induction cs with
  | nil =>
    cases r with
    | nil => simp
    | cons c r => simp [hr c rfl]
  | cons c cs ih => by_cases hc : p c = true <;> simp [hc, ih]

/-! ## Numbers -/

/-- Only zero is written with a zero in front. -/
theorem eq_zero_of_head (h : (Nat.toDigits 10 n).head? = some '0') : n = 0 := by
  induction n using Nat.strongRecOn with
  | ind n ih =>
    by_cases hlt : n < 10
    · rw [Nat.toDigits_of_lt_base hlt] at h
      have hdigit : ∀ k < 10, [k.digitChar].head? = some '0' → k = 0 := by decide
      exact hdigit n hlt h
    · have hle : 10 ≤ n := Nat.le_of_not_lt hlt
      rw [Nat.toDigits_of_base_le (by omega) hle, List.head?_append_of_ne_nil _ Nat.toDigits_ne_nil] at h
      have hzero := ih (n / 10) (by omega) h
      omega

theorem digits_toDigits : digits (Nat.toDigits 10 n) = (Nat.toDigits 10 n, []) := by
  have hall : ∀ c ∈ Nat.toDigits 10 n, c.isDigit = true := fun c =>
    Nat.isDigit_of_mem_toDigits (by decide) (by decide)
  rw [digits, List.takeWhile_eq_self_iff.mpr hall, List.dropWhile_eq_nil_iff.mpr hall]

theorem hexDigit_digitChar (h : n < 16) : hexDigit n.digitChar = some n := by
  have hall : ∀ k < 16, hexDigit k.digitChar = some k := by decide
  exact hall n h

theorem codeUnit_hex (h : n < 0x10000) :
    codeUnit ('\\' :: 'u' :: (n / 0x1000).digitChar :: (n / 0x100 % 16).digitChar ::
      (n / 16 % 16).digitChar :: (n % 16).digitChar :: r) = some (n, r) := by
  simp only [codeUnit, hexDigit_digitChar (show n / 0x1000 < 16 by omega),
    hexDigit_digitChar (show n / 0x100 % 16 < 16 by omega),
    hexDigit_digitChar (show n / 16 % 16 < 16 by omega),
    hexDigit_digitChar (show n % 16 < 16 by omega), Option.bind_eq_bind, Option.bind_some]
  have hsum : ((n / 0x1000 * 16 + n / 0x100 % 16) * 16 + n / 16 % 16) * 16 + n % 16 = n := by omega
  rw [hsum]
  rfl

end Coding
