import Rekuest.Interleave.System

/-!
# Rekuest.Interleave.Rely

What a program ends with while others change the state around it, between any two of its statements,
as long as every change is one of a relation.

* `Rely X G R`: `R` is a preorder, and the statements of `G` change the state within it.
* `Secures X R Q p s`: `p`, begun in `s` or later, ends with a result and a state that `Q` accepts,
  then and ever after. `Passes X R P p s`: before it ends, one of its statements leads to a state that
  `P` accepts.
* `Sys.run_secures`: the rule for a whole system.
-/

namespace Interleave

variable {L : Lang} {ε α β π ι σ : Type} [DecidableEq π] {X : Exec L ι σ} {G : L.Stmt → Prop}
  {R : σ → σ → Prop}

/-- The states only grow along `R` while statements of `G` are issued. -/
structure Rely (X : Exec L ι σ) (G : L.Stmt → Prop) (R : σ → σ → Prop) : Prop where
  refl : ∀ s, R s s
  trans : ∀ {s s' s''}, R s s' → R s' s'' → R s s''
  step : ∀ i c s, G c → R s (X i c s).2

namespace Prog

def Secures (X : Exec L ι σ) (R : σ → σ → Prop) (Q : Except ε α → σ → Prop) :
    Prog L ε α → σ → Prop
  | .ret a, s => ∀ s', R s s' → Q (.ok a) s'
  | .fail e, s => ∀ s', R s s' → Q (.error e) s'
  | .stmt c k, s => ∀ s', R s s' → ∀ i, Secures X R Q (k (X i c s').1) (X i c s').2

namespace Secures

variable {P Q : Except ε α → σ → Prop} {p : Prog L ε α} {s s' : σ}

theorem later (hR : Rely X G R) (h : Secures X R Q p s) (hs : R s s') : Secures X R Q p s' := by
  cases p with
  | ret a => exact fun s'' hs' => h s'' (hR.trans hs hs')
  | fail e => exact fun s'' hs' => h s'' (hR.trans hs hs')
  | stmt c k => exact fun s'' hs' => h s'' (hR.trans hs hs')

theorem mono (hPQ : ∀ r s, P r s → Q r s) (h : Secures X R P p s) : Secures X R Q p s := by
  induction p generalizing s with
  | ret a => exact fun s' hs => hPQ _ _ (h s' hs)
  | fail e => exact fun s' hs => hPQ _ _ (h s' hs)
  | stmt c k ih => exact fun s' hs i => ih _ (h s' hs i)

theorem and {P' : Except ε α → σ → Prop} (h : Secures X R P p s) (h' : Secures X R P' p s)
    (hQ : ∀ r s, P r s → P' r s → Q r s) : Secures X R Q p s := by
  induction p generalizing s with
  | ret a => exact fun s' hs => hQ _ _ (h s' hs) (h' s' hs)
  | fail e => exact fun s' hs => hQ _ _ (h s' hs) (h' s' hs)
  | stmt c k ih => exact fun s' hs i => ih _ (h s' hs i) (h' s' hs i)

theorem bind (hR : Rely X G R) {f : α → Prog L ε β} {Q : Except ε β → σ → Prop}
    (h : Secures X R P p s) (hok : ∀ a s', P (.ok a) s' → Secures X R Q (f a) s')
    (herr : ∀ e s', P (.error e) s' → Q (.error e) s') : Secures X R Q (p.bind f) s := by
  induction p generalizing s with
  | ret a => exact hok a s (h s (hR.refl s))
  | fail e => exact fun s' hs => herr e s' (h s' hs)
  | stmt c k ih => exact fun s' hs i => ih _ (h s' hs i)

/-- The statements of the program itself stay within the relation. -/
theorem of_issues (hR : Rely X G R) (hp : p.Issues G) : Secures X R (fun _ s' => R s s') p s := by
  have hall : ∀ s₀, R s₀ s → Secures X R (fun _ s' => R s₀ s') p s := by
    induction p generalizing s with
    | ret a => exact fun s₀ hs₀ s' hs => hR.trans hs₀ hs
    | fail e => exact fun s₀ hs₀ s' hs => hR.trans hs₀ hs
    | stmt c k ih =>
      exact fun s₀ hs₀ s' hs i =>
        ih _ (hp.2 _) s₀ (hR.trans hs₀ (hR.trans hs (hR.step i c s' hp.1)))
  exact hall s (hR.refl s)

/-- The first part is of no interest, but for what it lets others do. -/
theorem bind_any (hR : Rely X G R) {f : α → Prog L ε β} {Q : Except ε β → σ → Prop}
    (hp : p.Issues G) (hok : ∀ a s', R s s' → Secures X R Q (f a) s')
    (herr : ∀ e s', Q (.error e) s') : Secures X R Q (p.bind f) s :=
  (of_issues hR hp).bind hR hok fun e s' _ => herr e s'

end Secures

def Passes (X : Exec L ι σ) (R : σ → σ → Prop) (P : σ → Prop) : Prog L ε α → σ → Prop
  | .ret _, _ => False
  | .fail _, _ => False
  | .stmt c k, s => ∀ s', R s s' → ∀ i,
      P (X i c s').2 ∨ Passes X R P (k (X i c s').1) (X i c s').2

namespace Passes

variable {P : σ → Prop} {Q : Except ε α → σ → Prop} {p : Prog L ε α} {s s' : σ}

theorem later (hR : Rely X G R) (h : Passes X R P p s) (hs : R s s') : Passes X R P p s' := by
  cases p with
  | ret a => exact h
  | fail e => exact h
  | stmt c k => exact fun s'' hs' => h s'' (hR.trans hs hs')

theorem bind_left {f : α → Prog L ε β} (h : Passes X R P p s) : Passes X R P (p.bind f) s := by
  induction p generalizing s with
  | ret a => exact h.elim
  | fail e => exact h.elim
  | stmt c k ih => exact fun s' hs i => (h s' hs i).imp_right (ih _)

theorem bind_right (hR : Rely X G R) {f : α → Prog L ε β} (h : Secures X R Q p s)
    (hok : ∀ a s', Q (.ok a) s' → Passes X R P (f a) s') (herr : ∀ e s', ¬ Q (.error e) s') :
    Passes X R P (p.bind f) s := by
  induction p generalizing s with
  | ret a => exact hok a s (h s (hR.refl s))
  | fail e => exact absurd (h s (hR.refl s)) (herr e s)
  | stmt c k ih => exact fun s' hs i => .inr (ih _ (h s' hs i))

end Passes
end Prog

namespace Sys

open Prog

variable {c : Sys L ε α π σ}

/-- **Rely and guarantee.** Where every process stays within the relation, what each of them secures
against it, it secures against the others. -/
theorem run_secures (hR : Rely X G R) {Q : π → Except ε α → σ → Prop}
    (hG : ∀ p, (c.procs p).Issues G) (h : ∀ p, (c.procs p).Secures X R (Q p) c.shared)
    (sched : List (π × ι)) :
    R c.shared (c.run X sched).shared ∧
      ∀ p, ((c.run X sched).procs p).Secures X R (Q p) (c.run X sched).shared := by
  induction sched generalizing c with
  | nil => exact ⟨hR.refl _, h⟩
  | cons e sched ih =>
    show R c.shared ((c.step X e).run X sched).shared ∧ ∀ p, Secures X R (Q p)
      (((c.step X e).run X sched).procs p) ((c.step X e).run X sched).shared
    obtain hs | ⟨st, k, hp, hs⟩ := step_cases X c e
    · rw [hs]
      exact ih hG h
    have hpG := hG e.1
    have hpQ := h e.1
    rw [hp] at hpG hpQ
    have hstep : R c.shared (X e.2 st c.shared).2 := hR.step _ _ _ hpG.1
    obtain ⟨hrun, hsecures⟩ := ih (c := c.step X e)
      (fun p => by
        rw [hs]
        by_cases hpe : p = e.1
        · subst hpe
          rw [put_self]
          exact hpG.2 _
        · rw [put_other _ hpe]
          exact hG p)
      (fun p => by
        rw [hs]
        by_cases hpe : p = e.1
        · subst hpe
          rw [put_self]
          exact hpQ _ (hR.refl _) _
        · rw [put_other _ hpe]
          exact (h p).later hR hstep)
    refine ⟨hR.trans hstep ?_, hsecures⟩
    rw [hs] at hrun
    rwa [hs]

end Sys
end Interleave
