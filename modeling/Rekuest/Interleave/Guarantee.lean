import Rekuest.Interleave.Rely

/-!
# Rekuest.Interleave.Guarantee

Programs side by side that rely on each other in their own ways: who holds a lock relies on more
than who does not. Steps that are not enabled, such as taking a lock that is held, are not taken.

* `Behaves X ok W R G Q p s`: `p`, begun in `s` or after changes within `R`, waits for a statement
  only where `W` accepts that, makes enabled steps within `G` only, and ends with a result and a
  state that `Q` accepts, then and ever after.
* `Behaves.bind`: one program after the other.
* `Sys.along_behaves`: the rule for a whole system, where all others rely on what each guarantees.
-/

namespace Interleave

variable {L : Lang} {ε α β π ι σ : Type} {X : Exec L ι σ} {ok W : L.Stmt → σ → Prop}

/-- What others may do, in any number of steps. -/
structure Environment (R : σ → σ → Prop) : Prop where
  refl : ∀ s, R s s
  trans : ∀ {s s' s''}, R s s' → R s' s'' → R s s''

namespace Prog

def Behaves (X : Exec L ι σ) (ok W : L.Stmt → σ → Prop) (R G : σ → σ → Prop)
    (Q : Except ε α → σ → Prop) : Prog L ε α → σ → Prop
  | .ret a, s => ∀ s', R s s' → Q (.ok a) s'
  | .fail e, s => ∀ s', R s s' → Q (.error e) s'
  | .stmt c k, s => ∀ s', R s s' → W c s' ∧ (ok c s' → ∀ i, G s' (X i c s').2 ∧
      Behaves X ok W R G Q (k (X i c s').1) (X i c s').2)

namespace Behaves

variable {R G : σ → σ → Prop} {P Q : Except ε α → σ → Prop} {p : Prog L ε α} {s s' : σ}

theorem later (hR : Environment R) (h : Behaves X ok W R G Q p s) (hs : R s s') :
    Behaves X ok W R G Q p s' := by
  cases p with
  | ret a => exact fun s'' hs' => h s'' (hR.trans hs hs')
  | fail e => exact fun s'' hs' => h s'' (hR.trans hs hs')
  | stmt c k => exact fun s'' hs' => h s'' (hR.trans hs hs')

theorem bind (hR : Environment R) {f : α → Prog L ε β} {Q : Except ε β → σ → Prop}
    (h : Behaves X ok W R G P p s) (hok : ∀ a s', P (.ok a) s' → Behaves X ok W R G Q (f a) s')
    (herr : ∀ e s', P (.error e) s' → Q (.error e) s') : Behaves X ok W R G Q (p.bind f) s := by
  induction p generalizing s with
  | ret a => exact hok a s (h s (hR.refl s))
  | fail e => exact fun s' hs => herr e s' (h s' hs)
  | stmt c k ih =>
    intro s' hs
    refine ⟨(h s' hs).1, fun hc i => ?_⟩
    obtain ⟨hstep, hrest⟩ := (h s' hs).2 hc i
    exact ⟨hstep, ih _ hrest⟩

/-- A program of statements that stay within what it guarantees, in any state. -/
theorem of_issues {P : L.Stmt → Prop} (hP : ∀ i c s, P c → G s (X i c s).2) (hp : p.Issues P) :
    Behaves X ok (fun _ _ => True) R G (fun _ _ => True) p s := by
  induction p generalizing s with
  | ret a => exact fun _ _ => trivial
  | fail e => exact fun _ _ => trivial
  | stmt c k ih =>
    exact fun s' _ => ⟨trivial, fun _ i => ⟨hP i c s' hp.1, ih _ (hp.2 _)⟩⟩

end Behaves
end Prog

namespace Sys

variable [DecidableEq π] {c : Sys L ε α π σ}

/-- The statement that the process issues next is enabled. -/
def Enabled (ok : L.Stmt → σ → Prop) (c : Sys L ε α π σ) (e : π × ι) : Prop :=
  ∀ st k, c.procs e.1 = .stmt st k → ok st c.shared

instance [∀ st s, Decidable (ok st s)] (c : Sys L ε α π σ) (e : π × ι) :
    Decidable (Enabled ok c e) :=
  match h : c.procs e.1 with
  | .stmt st k => decidable_of_iff (ok st c.shared)
      ⟨fun hok st' k' h' => by cases h.symm.trans h'; exact hok, fun hall => hall st k h⟩
  | .ret _ => .isTrue fun _ _ h' => by cases h.symm.trans h'
  | .fail _ => .isTrue fun _ _ h' => by cases h.symm.trans h'

/-- Where all others rely on what each process guarantees, each behaves as it would against what
it relies on; and what all of them preserve, the run preserves. -/
theorem along_behaves {W : π → L.Stmt → σ → Prop} {R G : π → σ → σ → Prop}
    {Q : π → Except ε α → σ → Prop} {I : σ → Prop}
    (hR : ∀ p, Environment (R p)) (hG : ∀ p q, q ≠ p → ∀ s s', I s → G p s s' → R q s s')
    (hI : ∀ p s s', I s → G p s s' → I s')
    (h : ∀ p, (c.procs p).Behaves X ok (W p) (R p) (G p) (Q p) c.shared) (hs : I c.shared)
    {sched : List (π × ι)} (hsched : Along (step X) (Enabled ok) c sched) :
    I (c.run X sched).shared ∧
      ∀ p, ((c.run X sched).procs p).Behaves X ok (W p) (R p) (G p) (Q p) (c.run X sched).shared := by
  induction sched generalizing c with
  | nil => exact ⟨hs, h⟩
  | cons e sched ih =>
    obtain ⟨henabled, hrest⟩ := hsched
    refine ih (c := c.step X e) ?_ ?_ hrest
    · intro q
      rcases step_cases X c e with hstay | ⟨st, k, hp, hmove⟩
      · rw [hstay]
        exact h q
      · have hbehaves := h e.1
        rw [hp] at hbehaves
        obtain ⟨hstep, hleft⟩ :=
          (hbehaves c.shared ((hR e.1).refl _)).2 (henabled st k hp) e.2
        rw [hmove]
        by_cases hq : q = e.1
        · subst hq
          rw [put_self]
          exact hleft
        · rw [put_other _ hq]
          exact (h q).later (hR q) (hG e.1 q hq _ _ hs hstep)
    · rcases step_cases X c e with hstay | ⟨st, k, hp, hmove⟩
      · rw [hstay]
        exact hs
      · have hbehaves := h e.1
        rw [hp] at hbehaves
        rw [hmove]
        exact hI e.1 _ _ hs
          ((hbehaves c.shared ((hR e.1).refl _)).2 (henabled st k hp) e.2).1

end Sys
end Interleave
