import Rekuest.Interleave.Prog

/-!
# Rekuest.Interleave.System

Programs that run side by side over one shared state. A schedule is a list of processes, each
with the input of the statement it runs next; a process that is never scheduled again has
crashed or been cancelled. Schedules are finite and arbitrary, so what is proved for every
schedule holds in every state that any interleaving reaches.

* `Along`: every step of a run meets a condition in the state it is taken from.
* `Along.inv`: the invariant rule for such runs. `Sys.run_inv`: the one for statements.
* `Sys.run_filter`: the projection rule. If the processes outside a set leave a view of the
  shared state alone, and the processes of the set see no more than this view, then the view is
  what the processes of the set alone would have made of it.
-/

namespace Interleave

section Along

variable {σ ε : Type} {step : σ → ε → σ} {ok ok' : σ → ε → Prop}

/-- Every step of the run from `s` meets `ok` in the state it is taken from. -/
def Along (step : σ → ε → σ) (ok : σ → ε → Prop) : σ → List ε → Prop
  | _, [] => True
  | s, e :: es => ok s e ∧ Along step ok (step s e) es

instance decidableAlong [∀ s e, Decidable (ok s e)] :
    (s : σ) → (es : List ε) → Decidable (Along step ok s es)
  | _, [] => .isTrue trivial
  | s, e :: es =>
    have := decidableAlong (step s e) es
    inferInstanceAs (Decidable (ok s e ∧ Along step ok (step s e) es))

theorem along_append {s : σ} {es fs : List ε} :
    Along step ok s (es ++ fs) ↔ Along step ok s es ∧ Along step ok (es.foldl step s) fs := by
  induction es generalizing s with
  | nil => simp [Along]
  | cons e es ih => simp [Along, ih, and_assoc]

theorem Along.of_prefix {s : σ} {es fs : List ε} (h : Along step ok s fs) (hp : es <+: fs) :
    Along step ok s es := by
  obtain ⟨gs, rfl⟩ := hp
  exact (along_append.mp h).1

theorem Along.mono (hok : ∀ s e, ok s e → ok' s e) {s : σ} {es : List ε}
    (h : Along step ok s es) : Along step ok' s es := by
  induction es generalizing s with
  | nil => trivial
  | cons e es ih => exact ⟨hok s e h.1, ih h.2⟩

/-- Where the steps that meet the condition preserve `Inv`, each of them is taken under `Inv`. -/
theorem Along.with_inv {Inv : σ → Prop} (hstep : ∀ s e, Inv s → ok s e → Inv (step s e)) {s : σ}
    {es : List ε} (h : Along step ok s es) (hs : Inv s) :
    Along step (fun s e => Inv s ∧ ok s e) s es := by
  induction es generalizing s with
  | nil => trivial
  | cons e es ih => exact ⟨⟨hs, h.1⟩, ih h.2 (hstep s e hs h.1)⟩

/-- What every step that meets the condition preserves, the run preserves. -/
theorem Along.inv {Inv : σ → Prop} (hstep : ∀ s e, Inv s → ok s e → Inv (step s e)) {s : σ}
    {es : List ε} (h : Along step ok s es) (hs : Inv s) : Inv (es.foldl step s) := by
  induction es generalizing s with
  | nil => exact hs
  | cons e es ih => exact ih h.2 (hstep s e hs h.1)

end Along

/-- The shared state, and what each process has left to run. -/
structure Sys (L : Lang) (ε α π σ : Type) where
  shared : σ
  procs : π → Prog L ε α

namespace Sys

variable {L : Lang} {ε α π ι σ τ : Type} [DecidableEq π]

/-- The system after process `p` moved to `rest` and the shared state to `s`. -/
def put (c : Sys L ε α π σ) (p : π) (rest : Prog L ε α) (s : σ) : Sys L ε α π σ :=
  ⟨s, fun q => if q = p then rest else c.procs q⟩

@[simp] theorem put_shared (c : Sys L ε α π σ) (p : π) (rest : Prog L ε α) (s : σ) :
    (c.put p rest s).shared = s := rfl

@[simp] theorem put_self (c : Sys L ε α π σ) (p : π) (rest : Prog L ε α) (s : σ) :
    (c.put p rest s).procs p = rest := if_pos rfl

theorem put_other (c : Sys L ε α π σ) {p q : π} (h : q ≠ p) (rest : Prog L ε α) (s : σ) :
    (c.put p rest s).procs q = c.procs q := if_neg h

/-- Process `e.1` runs its next statement with input `e.2`; at its end it does nothing. -/
def step (X : Exec L ι σ) (c : Sys L ε α π σ) (e : π × ι) : Sys L ε α π σ :=
  match c.procs e.1 with
  | .stmt st k => c.put e.1 (k (X e.2 st c.shared).1) (X e.2 st c.shared).2
  | _ => c

def run (X : Exec L ι σ) (c : Sys L ε α π σ) (sched : List (π × ι)) : Sys L ε α π σ :=
  sched.foldl (step X) c

variable {X : Exec L ι σ} {c d : Sys L ε α π σ}

theorem run_append (sched sched' : List (π × ι)) :
    c.run X (sched ++ sched') = (c.run X sched).run X sched' := by
  simp [run, List.foldl_append]

theorem step_stmt {e : π × ι} {st : L.Stmt} {k : L.Ans st → Prog L ε α}
    (h : c.procs e.1 = .stmt st k) :
    c.step X e = c.put e.1 (k (X e.2 st c.shared).1) (X e.2 st c.shared).2 := by
  simp [step, h]

/-- A step does nothing, or runs the next statement of the scheduled process. -/
theorem step_cases (X : Exec L ι σ) (c : Sys L ε α π σ) (e : π × ι) :
    c.step X e = c ∨ ∃ st k, c.procs e.1 = .stmt st k ∧
      c.step X e = c.put e.1 (k (X e.2 st c.shared).1) (X e.2 st c.shared).2 := by
  cases h : c.procs e.1 with
  | ret a => exact .inl (by simp [step, h])
  | fail e => exact .inl (by simp [step, h])
  | stmt st k => exact .inr ⟨st, k, rfl, step_stmt h⟩

/-- **Invariant.** What every statement that a process can issue preserves, the run preserves. -/
theorem run_inv {P : L.Stmt → Prop} {I : σ → Prop} (hX : ∀ i st s, P st → I s → I (X i st s).2)
    (hP : ∀ p, (c.procs p).Issues P) (sched : List (π × ι)) (hs : I c.shared) :
    I (c.run X sched).shared := by
  induction sched generalizing c with
  | nil => exact hs
  | cons e sched ih =>
    rcases step_cases X c e with h | ⟨st, k, hp, h⟩
    · show I ((c.step X e).run X sched).shared
      rw [h]
      exact ih hP hs
    · have hst : P st ∧ ∀ a, (k a).Issues P := by
        have he := hP e.1
        rwa [hp] at he
      show I ((c.step X e).run X sched).shared
      rw [h]
      refine ih (fun q => ?_) (hX _ _ _ hst.1 hs)
      by_cases hq : q = e.1
      · subst hq
        rw [put_self]
        exact hst.2 _
      · rw [put_other _ hq]
        exact hP q

/-! ## Projection -/

/-- Statement `st` sees and changes no more of the state than `view` shows. -/
def Respects (X : Exec L ι σ) (view : σ → τ) (st : L.Stmt) : Prop :=
  ∀ i s s', view s = view s' →
    (X i st s).1 = (X i st s').1 ∧ view (X i st s).2 = view (X i st s').2

/-- The systems agree on the view, and on the processes of `keep`, whose statements stay
within the view. -/
structure Agree (X : Exec L ι σ) (view : σ → τ) (keep : π → Bool) (c d : Sys L ε α π σ) :
    Prop where
  shared : view c.shared = view d.shared
  procs : ∀ p, keep p = true → c.procs p = d.procs p
  within : ∀ p, keep p = true → (c.procs p).Issues (Respects X view)

variable {view : σ → τ} {keep : π → Bool}

/-- A step of a process outside `keep` that leaves the view alone is not seen. -/
theorem Agree.skip (h : Agree X view keep c d) {e : π × ι} (he : keep e.1 = false)
    (hv : view (c.step X e).shared = view c.shared) : Agree X view keep (c.step X e) d := by
  have hp : ∀ p, keep p = true → (c.step X e).procs p = c.procs p := by
    intro p hk
    rcases step_cases X c e with hs | ⟨st, k, _, hs⟩
    · rw [hs]
    · rw [hs, put_other _ (by rintro rfl; simp [he] at hk)]
  refine ⟨hv.trans h.shared, fun p hk => ?_, fun p hk => ?_⟩
  · rw [hp p hk]; exact h.procs p hk
  · rw [hp p hk]; exact h.within p hk

/-- A step of a process of `keep` is the same step on both sides. -/
theorem Agree.step (h : Agree X view keep c d) {e : π × ι} (he : keep e.1 = true) :
    Agree X view keep (c.step X e) (d.step X e) := by
  have hpe := h.procs e.1 he
  have hw := h.within e.1 he
  cases hc : c.procs e.1 with
  | ret a => simpa [Sys.step, hc, ← hpe] using h
  | fail x => simpa [Sys.step, hc, ← hpe] using h
  | stmt st k =>
    rw [hc] at hw
    obtain ⟨ha, hv⟩ := hw.1 e.2 c.shared d.shared h.shared
    rw [step_stmt hc, step_stmt (hpe ▸ hc)]
    refine ⟨hv, fun p hk => ?_, fun p hk => ?_⟩
    · by_cases hpq : p = e.1
      · subst hpq; simp only [put_self, ha]
      · rw [put_other _ hpq, put_other _ hpq]; exact h.procs p hk
    · by_cases hpq : p = e.1
      · subst hpq; simp only [put_self]; exact hw.2 _
      · rw [put_other _ hpq]; exact h.within p hk

/-- **Projection.** If every step outside `keep` leaves the view alone, the run shows the view
that the processes of `keep` alone would have produced. -/
theorem run_filter {sched : List (π × ι)} (h : Agree X view keep c d)
    (hother : Along (step X)
      (fun c e => keep e.1 = false → view (c.step X e).shared = view c.shared) c sched) :
    Agree X view keep (c.run X sched) (d.run X (sched.filter fun e => keep e.1)) := by
  induction sched generalizing c d with
  | nil => exact h
  | cons e sched ih =>
    cases he : keep e.1 with
    | true =>
      simp only [run, List.filter_cons, he, if_true, List.foldl_cons]
      exact ih (h.step he) hother.2
    | false =>
      simp only [run, List.filter_cons, he, Bool.false_eq_true, if_false, List.foldl_cons]
      exact ih (h.skip he (hother.1 he)) hother.2

end Sys
end Interleave
