import Mathlib.Data.List.Induction
import Mathlib.Logic.Function.Basic
import Rekuest.Interleave.System

/-!
# Rekuest.Interleave.Holding

Resources that are acquired and released on somebody's behalf, and who holds them.

* `Hold`: an acquisition or a release. A release need not say for whom.
* `record`: the last acquisition holds, and any release frees. This is what a register does that
  looks at neither side.
* `own`: the same, but a release frees what its own sender holds, and nothing else.
* `Polite`: nobody acquires what another holds, or releases it. Along polite runs the two agree,
  and nobody loses a resource to another.
-/

namespace Interleave

inductive Hold (ρ τ : Type) where
  | acquire (r : ρ) (t : τ)
  | release (r : ρ) (sender : Option τ)
  deriving DecidableEq, Repr

/-- Who holds what. -/
abbrev Holders (ρ τ : Type) := ρ → Option τ

namespace Hold

variable {ρ τ : Type} [DecidableEq ρ] {h : Holders ρ τ} {e : Hold ρ τ} {es : List (Hold ρ τ)}
  {r : ρ} {t : τ}

def sender : Hold ρ τ → Option τ
  | acquire _ t => some t
  | release _ sender => sender

def resource : Hold ρ τ → ρ
  | acquire r _ => r
  | release r _ => r

def record (h : Holders ρ τ) : Hold ρ τ → Holders ρ τ
  | acquire r t => Function.update h r (some t)
  | release r _ => Function.update h r none

/-- Who holds what after these, from nobody. -/
def recorded (es : List (Hold ρ τ)) : Holders ρ τ := es.foldl record fun _ => none

/-- The resource is free, or held by the one who asks. -/
def Polite (h : Holders ρ τ) (e : Hold ρ τ) : Prop := h e.resource = none ∨ h e.resource = e.sender

theorem recorded_append : recorded (es ++ [e]) = record (recorded es) e := by
  simp [recorded, List.foldl_append]

theorem record_of_ne (hr : r ≠ e.resource) : record h e r = h r := by
  cases e with
  | acquire r' t => exact Function.update_of_ne hr _ _
  | release r' sender => exact Function.update_of_ne hr _ _

/-- Nobody loses a resource to another. -/
theorem record_kept (hp : Polite h e) (hheld : h r = some t) (hother : e.sender ≠ some t) :
    record h e r = some t := by
  by_cases hr : r = e.resource
  · subst hr
    rcases hp with hfree | hmine
    · rw [hfree] at hheld
      cases hheld
    · exact absurd (hmine.symm.trans hheld) hother
  · rw [record_of_ne hr, hheld]

variable [DecidableEq τ]

def own (h : Holders ρ τ) : Hold ρ τ → Holders ρ τ
  | acquire r t => Function.update h r (some t)
  | release r sender => if h r = sender then Function.update h r none else h

/-- Who acquired a resource last and has not released it himself. -/
def owned (es : List (Hold ρ τ)) : Holders ρ τ := es.foldl own fun _ => none

theorem owned_append : owned (es ++ [e]) = own (owned es) e := by
  simp [owned, List.foldl_append]

/-- Where it is polite, the two agree. -/
theorem own_eq_record (hp : Polite h e) : own h e = record h e := by
  cases e with
  | acquire r t => rfl
  | release r sender =>
    rcases hp with hfree | hmine
    · by_cases hs : h r = sender
      · exact if_pos hs
      · show (if h r = sender then _ else h) = Function.update h r none
        rw [if_neg hs]
        exact (Function.update_eq_self_iff.mpr hfree.symm).symm
    · exact if_pos hmine

end Hold
end Interleave
