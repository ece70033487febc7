import Rekuest.Interleave.Prog

/-!
# Rekuest.Interleave.Typestate

Programs that follow a protocol: in each phase they issue only the statements the phase allows,
and the answer decides the next phase.

* `Protocol`: what each phase allows, the next phase, and which answers can come at all.
* `Follows R idle p φ`: whatever is answered, `p` follows `R` from phase `φ`, and is back in
  phase `idle` at its end. From `idle` to `idle` this is a `Compositional` property.
-/

namespace Interleave
namespace Prog

variable {L : Lang} {ε α β Φ : Type}

structure Protocol (L : Lang) (Φ : Type) where
  allows : Φ → L.Stmt → Prop
  next : Φ → (c : L.Stmt) → L.Ans c → Φ
  real : (c : L.Stmt) → L.Ans c → Prop

def Follows (R : Protocol L Φ) (idle : Φ) : Prog L ε α → Φ → Prop
  | .ret _, φ => φ = idle
  | .fail _, φ => φ = idle
  | .stmt c k, φ => R.allows φ c ∧ ∀ a, R.real c a → Follows R idle (k a) (R.next φ c a)

variable {R : Protocol L Φ} {idle φ : Φ}

theorem Follows.bind {p : Prog L ε α} {f : α → Prog L ε β} (hp : p.Follows R idle φ)
    (hf : ∀ a, (f a).Follows R idle idle) : (p.bind f).Follows R idle φ := by
  induction p generalizing φ with
  | ret a => cases hp; exact hf a
  | fail e => exact hp
  | stmt c k ih => exact ⟨hp.1, fun a ha => ih a (hp.2 a ha)⟩

theorem Follows.compositional :
    Compositional (L := L) (ε := ε) fun _ p => p.Follows R idle idle where
  ret _ := rfl
  fail _ := rfl
  bind := Follows.bind

/-- A statement that the idle phase allows and that leaves it in place. -/
theorem Follows.issue {c : L.Stmt} (ha : R.allows idle c)
    (hn : ∀ a, R.real c a → R.next idle c a = idle) :
    Follows (ε := ε) R idle (issue c) idle :=
  ⟨ha, hn⟩

/-- A program of statements that the idle phase allows and that leave it in place. -/
theorem Follows.of_issues {P : L.Stmt → Prop} {p : Prog L ε α}
    (hP : ∀ c, P c → R.allows idle c ∧ ∀ a, R.next idle c a = idle) (hp : p.Issues P) :
    p.Follows R idle idle := by
  induction p with
  | ret a => rfl
  | fail e => rfl
  | stmt c k ih =>
    obtain ⟨hallows, hnext⟩ := hP c hp.1
    refine ⟨hallows, fun a _ => ?_⟩
    rw [hnext a]
    exact ih a (hp.2 a)

end Prog
end Interleave
