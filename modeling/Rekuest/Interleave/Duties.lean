import Rekuest.Interleave.Rely

/-!
# Rekuest.Interleave.Duties

What a program owes for the things it brings about, while others change the state around it.

* `Duties`: which changes others make, which things a step has brought about, and what is due to them.
  `Contract`: what is asked of the steps of one process, what it promises at each of them, and how it
  ends.
* `Fulfils X D K p mine s`: `p`, begun in `s` or later, keeps its promises, and returns only where
  what is due to the things of `mine`, and to those it has brought about since, is done.
* `Traced`: a run, with the process that brought each thing about. `Fulfilling.step`: the rule for a
  whole system.
-/

namespace Interleave

variable {L : Lang} {ε α β π ι σ τ : Type} {X : Exec L ι σ}

structure Duties (σ τ : Type) where
  /-- What the state goes through between two statements of a process. -/
  rely : σ → σ → Prop
  /-- The step from the first state to the second has brought the thing about. -/
  born : σ → σ → τ → Bool
  kept : τ → σ → Prop

structure Contract (L : Lang) (ι σ ε α : Type) where
  asked : ι → L.Stmt → σ → Prop
  promised : L.Stmt → σ → Prop
  post : Except ε α → σ → Prop

/-- The same, with another end. -/
def Contract.until (K : Contract L ι σ ε α) (P : Except ε β → σ → Prop) : Contract L ι σ ε β :=
  ⟨K.asked, K.promised, P⟩

namespace Prog

def Fulfils (X : Exec L ι σ) (D : Duties σ τ) (K : Contract L ι σ ε α) :
    Prog L ε α → (τ → Prop) → σ → Prop
  | .ret a, mine, s => K.post (.ok a) s ∧ ∀ x, mine x → D.kept x s
  | .fail e, _, s => K.post (.error e) s
  | .stmt c k, mine, s => ∀ s', D.rely s s' → ∀ i, K.asked i c s' → K.promised c s' ∧
      Fulfils X D K (k (X i c s').1) (fun x => mine x ∨ D.born s' (X i c s').2 x = true) (X i c s').2

namespace Fulfils

variable {D : Duties σ τ} {K : Contract L ι σ ε α} {mine mine' : τ → Prop} {p : Prog L ε α}
  {q : Prog L ε β} {P : Except ε β → σ → Prop} {s : σ} {G N : L.Stmt → Prop}
  {real : (c : L.Stmt) → L.Ans c → Prop} {Y : β → Prop}

theorem fewer (hmine : ∀ x, mine' x → mine x) (h : Fulfils X D K p mine s) :
    Fulfils X D K p mine' s := by
  induction p generalizing s mine mine' with
  | ret a => exact ⟨h.1, fun x hx => h.2 x (hmine x hx)⟩
  | fail e => exact h
  | stmt c k ih =>
    intro s' hs i hi
    obtain ⟨hhere, hrest⟩ := h s' hs i hi
    exact ⟨hhere, ih _ (fun x hx => hx.imp_left (hmine x)) hrest⟩

theorem mono {Q : Except ε α → σ → Prop} (h : Fulfils X D (K.until Q) p mine s)
    (hpost : ∀ r s, Q r s → K.post r s) : Fulfils X D K p mine s := by
  induction p generalizing s mine with
  | ret a => exact ⟨hpost _ _ h.1, h.2⟩
  | fail e => exact hpost _ _ h
  | stmt c k ih => exact fun s' hs i hi => (h s' hs i hi).imp_right (ih _)

/-- What is made of the value is no matter of the duties. -/
theorem map {g : β → α} (h : Fulfils X D (K.until P) q mine s)
    (hok : ∀ b s, P (.ok b) s → K.post (.ok (g b)) s)
    (herr : ∀ e s, P (.error e) s → K.post (.error e) s) :
    Fulfils X D K (q.bind fun b => .ret (g b)) mine s := by
  induction q generalizing s mine with
  | ret b => exact ⟨hok b s h.1, h.2⟩
  | fail e => exact herr e s h
  | stmt c k ih => exact fun s' hs i hi => (h s' hs i hi).imp_right (ih _)

/-- After a first part that brings nothing about. -/
theorem bind (hN : ∀ i c s x, N c → D.born s (X i c s).2 x = false) (hq : q.Issues N)
    (h : Fulfils X D (K.until P) q (fun _ => False) s) {f : β → Prog L ε α}
    (hok : ∀ b s', P (.ok b) s' → Fulfils X D K (f b) mine s')
    (herr : ∀ e s', P (.error e) s' → K.post (.error e) s') : Fulfils X D K (q.bind f) mine s := by
  induction q generalizing s with
  | ret b => exact hok b s h.1
  | fail e => exact herr e s h
  | stmt c k ih =>
    intro s' hs i hi
    obtain ⟨hhere, hrest⟩ := h s' hs i hi
    have hnone : ∀ x, D.born s' (X i c s').2 x ≠ true := fun x hx => by
      rw [hN i c s' x hq.1] at hx
      cases hx
    exact ⟨hhere, (ih _ (hq.2 _) (hrest.fewer fun _ => False.elim)).fewer
      fun x hx => hx.resolve_right (hnone x)⟩

/-- What a program catches, it ends with. -/
theorem attempt (hN : ∀ i c s x, N c → D.born s (X i c s).2 x = false) (hq : q.Issues N)
    (h : Fulfils X D (K.until P) q (fun _ => False) s) :
    Fulfils X D (K.until fun (r : Except ε (Except ε β)) s => ∃ r', r = .ok r' ∧ P r' s) q.attempt
      (fun _ => False) s := by
  induction q generalizing s with
  | ret b => exact ⟨⟨_, rfl, h.1⟩, fun _ => False.elim⟩
  | fail e => exact ⟨⟨_, rfl, h⟩, fun _ => False.elim⟩
  | stmt c k ih =>
    intro s' hs i hi
    obtain ⟨hhere, hrest⟩ := h s' hs i hi
    have hnone : ∀ x, D.born s' (X i c s').2 x ≠ true := fun x hx => by
      rw [hN i c s' x hq.1] at hx
      cases hx
    exact ⟨hhere, (ih _ (hq.2 _) (hrest.fewer fun _ => False.elim)).fewer
      fun x hx => hx.resolve_right (hnone x)⟩

/-- A program whose statements need no promise and bring nothing about. -/
theorem of_yields (hR : Rely X G D.rely) (hG : ∀ c, N c → G c)
    (hN : ∀ i c s x, N c → D.born s (X i c s).2 x = false) (hpromised : ∀ c s, N c → K.promised c s)
    (hreal : ∀ i c s', D.rely s s' → real c (X i c s').1) (hq : q.Issues N) (hy : q.Yields real Y) :
    Fulfils X D (K.until fun r s' => D.rely s s' ∧ ∀ b, r = .ok b → Y b) q (fun _ => False) s := by
  have hall : ∀ s₀, D.rely s₀ s → (∀ i c s', D.rely s₀ s' → real c (X i c s').1) →
      Fulfils X D (K.until fun r s' => D.rely s₀ s' ∧ ∀ b, r = .ok b → Y b) q
        (fun _ => False) s := by
    clear hreal
    induction q generalizing s with
    | ret b =>
      refine fun s₀ hs₀ _ => ⟨⟨hs₀, ?_⟩, fun _ => False.elim⟩
      rintro _ ⟨⟩
      exact hy
    | fail e => exact fun s₀ hs₀ _ => ⟨hs₀, fun _ h => by cases h⟩
    | stmt c k ih =>
      intro s₀ hs₀ hreal s' hs i _
      have hs₀' : D.rely s₀ s' := hR.trans hs₀ hs
      have hstep : D.rely s₀ (X i c s').2 := hR.trans hs₀' (hR.step i c s' (hG c hq.1))
      refine ⟨hpromised c s' hq.1, (ih _ (hq.2 _) (hy _ (hreal i c s' hs₀')) s₀ hstep hreal).fewer ?_⟩
      intro x hx
      refine hx.resolve_right ?_
      rw [hN i c s' x hq.1]
      exact Bool.false_ne_true
  exact hall s (hR.refl s) hreal

end Fulfils
end Prog

/-! ## Whole systems -/

open Prog

/-- A run so far: the system, and the process that brought each thing about. -/
structure Traced (L : Lang) (ε α π σ τ : Type) where
  sys : Sys L ε α π σ
  origin : τ → Option π := fun _ => none

variable [DecidableEq π] {D : Duties σ τ} {K : π → Contract L ι σ ε α} {r : Traced L ε α π σ τ}
  {e : π × ι}

def Traced.step (X : Exec L ι σ) (born : σ → σ → τ → Bool) (r : Traced L ε α π σ τ) (e : π × ι) :
    Traced L ε α π σ τ where
  sys := r.sys.step X e
  origin x := if born r.sys.shared (r.sys.step X e).shared x = true then some e.1 else r.origin x

@[simp] theorem Traced.step_sys {born : σ → σ → τ → Bool} :
    (r.step X born e).sys = r.sys.step X e := rfl

/-- Each process keeps its contract, and what a process has returned is done. -/
structure Fulfilling (X : Exec L ι σ) (D : Duties σ τ) (K : π → Contract L ι σ ε α)
    (r : Traced L ε α π σ τ) : Prop where
  going : ∀ p c k, r.sys.procs p = .stmt c k →
    Fulfils X D (K p) (.stmt c k : Prog L ε α) (fun x => r.origin x = some p) r.sys.shared
  ended : ∀ p a, r.sys.procs p = .ret a → ∀ x, r.origin x = some p → D.kept x r.sys.shared

/-- What was brought about by the step is of its process, and everything else of whose it was. -/
theorem Traced.origin_cases {born : σ → σ → τ → Bool} {x : τ} {p : π}
    (h : (r.step X born e).origin x = some p) :
    (p = e.1 ∧ born r.sys.shared (r.sys.step X e).shared x = true) ∨ r.origin x = some p := by
  have h' : (if born r.sys.shared (r.sys.step X e).shared x = true then some e.1
      else r.origin x) = some p := h
  split at h'
  · rename_i hborn
    cases h'
    exact .inl ⟨rfl, hborn⟩
  · exact .inr h'

namespace Fulfilling

/-- **Duties.** A step that meets what is asked of it keeps the promises of its process, those of the
return among them, and all contracts. -/
theorem step {G : L.Stmt → Prop} (hR : Rely X G D.rely)
    (hborn : ∀ s x, D.born s s x = false)
    (hkept : ∀ x s s', D.rely s s' → D.kept x s → D.kept x s') (h : Fulfilling X D K r)
    (hG : ∀ c ∈ (r.sys.procs e.1).next?, G c)
    (hasked : ∀ c ∈ (r.sys.procs e.1).next?, (K e.1).asked e.2 c r.sys.shared) :
    Fulfilling X D K (r.step X D.born e) ∧ ∀ c ∈ (r.sys.procs e.1).next?,
      (K e.1).promised c r.sys.shared ∧
      ∀ a, (r.sys.step X e).procs e.1 = .ret a → (K e.1).post (.ok a) (r.sys.step X e).shared := by
  have hidle : r.sys.step X e = r.sys → Fulfilling X D K (r.step X D.born e) := by
    intro hs
    have horigin : ∀ {x p}, (r.step X D.born e).origin x = some p → r.origin x = some p := by
      intro x p hx
      refine (Traced.origin_cases hx).resolve_left fun hnew => ?_
      rw [hs, hborn] at hnew
      exact Bool.false_ne_true hnew.2
    refine ⟨fun p c k hp => ?_, fun p a hp x hx => ?_⟩
    · rw [Traced.step_sys, hs] at hp ⊢
      exact (h.going p c k hp).fewer fun x => horigin
    · rw [Traced.step_sys, hs] at hp ⊢
      exact h.ended p a hp x (horigin hx)
  cases hp : r.sys.procs e.1 with
  | ret a => exact ⟨hidle (by simp [Sys.step, hp]), fun c hc => by cases hc⟩
  | fail x => exact ⟨hidle (by simp [Sys.step, hp]), fun c hc => by cases hc⟩
  | stmt st k =>
    rw [hp] at hG hasked
    have hs := Sys.step_stmt (X := X) hp
    have hstep : D.rely r.sys.shared (X e.2 st r.sys.shared).2 := hR.step _ _ _ (hG st rfl)
    obtain ⟨hpromised, hrest⟩ :=
      h.going e.1 st k hp r.sys.shared (hR.refl _) e.2 (hasked st rfl)
    have hself : ∀ {x}, (r.step X D.born e).origin x = some e.1 →
        r.origin x = some e.1 ∨ D.born r.sys.shared (X e.2 st r.sys.shared).2 x = true := by
      intro x hx
      obtain ⟨_, hnew⟩ | hold := Traced.origin_cases hx
      · rw [hs] at hnew
        exact .inr hnew
      · exact .inl hold
    have hother : ∀ {x p}, p ≠ e.1 → (r.step X D.born e).origin x = some p →
        r.origin x = some p :=
      fun hne hx => (Traced.origin_cases hx).resolve_left fun hnew => hne hnew.1
    refine ⟨⟨fun p c k' hp' => ?_, fun p a hp' x hx => ?_⟩, fun c hc => ?_⟩
    · rw [Traced.step_sys, hs] at hp' ⊢
      by_cases hpe : p = e.1
      · subst hpe
        rw [Sys.put_self] at hp'
        rw [← hp']
        exact hrest.fewer fun x => hself
      · rw [Sys.put_other _ hpe] at hp'
        have hlater : Fulfils X D (K p) (.stmt c k' : Prog L ε α) (fun x => r.origin x = some p)
            (X e.2 st r.sys.shared).2 :=
          fun s' hs' => h.going p c k' hp' s' (hR.trans hstep hs')
        exact hlater.fewer fun x => hother hpe
    · rw [Traced.step_sys, hs] at hp' ⊢
      by_cases hpe : p = e.1
      · subst hpe
        rw [Sys.put_self] at hp'
        rw [hp'] at hrest
        exact hrest.2 x (hself hx)
      · rw [Sys.put_other _ hpe] at hp'
        exact hkept x _ _ hstep (h.ended p a hp' x (hother hpe hx))
    · cases hc
      refine ⟨hpromised, fun a hret => ?_⟩
      rw [hs, Sys.put_self] at hret
      rw [hret] at hrest
      rw [hs]
      exact hrest.1

end Fulfilling
end Interleave
