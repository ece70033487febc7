import Rekuest.Interleave.Prog

/-!
# Rekuest.Interleave.Wp

What a program that runs alone ends with, whatever inputs its statements read, as long as each
statement it issues meets a condition in the state it is issued in.

* `Meets X ok p i s`: every statement of the run of `p` meets `ok`.
* `wp X ok p Q s`: every such run of `p` from `s` ends with a result and a state that `Q` accepts.
* `Exactly X ok good p i s`: the run ends well if, and only if, every statement of it meets `ok`.
* `Keeps X ok I p`: every such run of `p` preserves `I`. Sequencing keeps this, so it is a
  `Compositional` property, with the loop rules that come with it.
-/

namespace Interleave
namespace Prog

variable {L : Lang} {ε α β γ ι σ : Type} {X : Exec L ι σ} {ok : ι → L.Stmt → σ → Prop}

/-- No condition. -/
def anyStep : ι → L.Stmt → σ → Prop := fun _ _ _ => True

/-- Every statement that the run issues meets `ok` in the state it is issued in. -/
def Meets (X : Exec L ι σ) (ok : ι → L.Stmt → σ → Prop) : Prog L ε α → (Nat → ι) → σ → Prop
  | .ret _, _, _ => True
  | .fail _, _, _ => True
  | .stmt c k, i, s =>
    ok (i 0) c s ∧ Meets X ok (k (X (i 0) c s).1) (fun n => i (n + 1)) (X (i 0) c s).2

instance [∀ i c s, Decidable (ok i c s)] : (p : Prog L ε α) → (i : Nat → ι) → (s : σ) →
    Decidable (Meets X ok p i s)
  | .ret _, _, _ => .isTrue trivial
  | .fail _, _, _ => .isTrue trivial
  | .stmt c k, i, s =>
    have := instDecidableMeets (k (X (i 0) c s).1) (fun n => i (n + 1)) (X (i 0) c s).2
    inferInstanceAs (Decidable (ok (i 0) c s ∧
      Meets X ok (k (X (i 0) c s).1) (fun n => i (n + 1)) (X (i 0) c s).2))

def wp (X : Exec L ι σ) (ok : ι → L.Stmt → σ → Prop) :
    Prog L ε α → (Except ε α → σ → Prop) → σ → Prop
  | .ret a, Q, s => Q (.ok a) s
  | .fail e, Q, s => Q (.error e) s
  | .stmt c k, Q, s => ∀ i, ok i c s → wp X ok (k (X i c s).1) Q (X i c s).2

@[simp] theorem meets_any {p : Prog L ε α} {i : Nat → ι} {s : σ} : Meets X anyStep p i s := by
  induction p generalizing i s with
  | ret a => trivial
  | fail e => trivial
  | stmt c k ih => exact ⟨trivial, ih _⟩

theorem wp_run {p : Prog L ε α} {Q : Except ε α → σ → Prop} {s : σ} (h : wp X ok p Q s)
    {i : Nat → ι} (hi : Meets X ok p i s) : Q (run X p i s).result (run X p i s).state := by
  induction p generalizing i s with
  | ret a => exact h
  | fail e => exact h
  | stmt c k ih => exact ih _ (h (i 0) hi.1) hi.2

theorem wp_mono {p : Prog L ε α} {Q R : Except ε α → σ → Prop} {s : σ}
    (hQR : ∀ r s, Q r s → R r s) (h : wp X ok p Q s) : wp X ok p R s := by
  induction p generalizing s with
  | ret a => exact hQR _ _ h
  | fail e => exact hQR _ _ h
  | stmt c k ih => exact fun i hi => ih _ (h i hi)

/-- What is asked of the rest of a program, once its first part has ended. -/
def after (X : Exec L ι σ) (ok : ι → L.Stmt → σ → Prop) (f : α → Prog L ε β)
    (Q : Except ε β → σ → Prop) : Except ε α → σ → Prop
  | .ok a, s => wp X ok (f a) Q s
  | .error e, s => Q (.error e) s

theorem wp_bind {p : Prog L ε α} {f : α → Prog L ε β} {Q : Except ε β → σ → Prop} {s : σ} :
    wp X ok (p.bind f) Q s ↔ wp X ok p (after X ok f Q) s := by
  induction p generalizing s with
  | ret a => rfl
  | fail e => rfl
  | stmt c k ih => exact forall_congr' fun i => forall_congr' fun _ => ih _

/-- What the program raises is caught. -/
theorem wp_attempt {p : Prog L ε α} {Q : Except ε (Except ε α) → σ → Prop} {s : σ} :
    wp X ok p.attempt Q s ↔ wp X ok p (fun r s => Q (.ok r) s) s := by
  induction p generalizing s with
  | ret a => rfl
  | fail e => rfl
  | stmt c k ih => exact forall_congr' fun i => forall_congr' fun _ => ih _

/-- Loop rule: an invariant indexed by what the loop still has to do. -/
theorem wp_forEach {f : β → Prog L ε Unit} {I : List β → σ → Prop} {xs : List β}
    {Q : Except ε Unit → σ → Prop}
    (hf : ∀ x rest, ∀ s, I (x :: rest) s →
      wp X ok (f x) (fun r s => match r with | .ok _ => I rest s | .error e => Q (.error e) s) s)
    (hQ : ∀ s, I [] s → Q (.ok ()) s) {s : σ} (hs : I xs s) : wp X ok (forEach f xs) Q s := by
  induction xs generalizing s with
  | nil => exact hQ s hs
  | cons x xs ih =>
    refine wp_bind.mpr (wp_mono ?_ (hf x xs s hs))
    rintro (e | ⟨⟩) s' h'
    · exact h'
    · exact ih h'

/-- A program whose statements leave the state alone ends where it began. -/
theorem Issues.wp_readOnly {P : L.Stmt → Prop} (hX : ∀ i c s, P c → (X i c s).2 = s)
    {p : Prog L ε α} (hp : p.Issues P) {Q : Except ε α → σ → Prop} {s : σ} (h : ∀ r, Q r s) :
    wp X ok p Q s := by
  induction p generalizing s with
  | ret a => exact h _
  | fail e => exact h _
  | stmt c k ih =>
    intro i _
    rw [hX i c s hp.1]
    exact ih _ (hp.2 _) h

/-- And what it returns is what it can return on the answers of that state. -/
theorem Yields.wp_readOnly {P : L.Stmt → Prop} {real : (c : L.Stmt) → L.Ans c → Prop}
    {Y : α → Prop} (hX : ∀ i c s, P c → (X i c s).2 = s) {s : σ} (hreal : ∀ i c, real c (X i c s).1)
    {p : Prog L ε α} (hp : p.Issues P) (hy : p.Yields real Y) :
    wp X ok p (fun r s' => s' = s ∧ ∀ a, r = .ok a → Y a) s := by
  induction p with
  | ret a =>
    refine ⟨rfl, ?_⟩
    rintro _ ⟨⟩
    exact hy
  | fail e => exact ⟨rfl, fun _ h => by cases h⟩
  | stmt c k ih =>
    intro i _
    rw [hX i c s hp.1]
    exact ih _ (hp.2 _) (hy _ (hreal i c))

/-! ## Exact conditions -/

/-- The run ends well just when every statement of it meets `ok`. -/
def Exactly (X : Exec L ι σ) (ok : ι → L.Stmt → σ → Prop) (good : Except ε α → σ → Prop)
    (p : Prog L ε α) (i : Nat → ι) (s : σ) : Prop :=
  good (run X p i s).result (run X p i s).state ↔ Meets X ok p i s

variable {good : Except ε α → σ → Prop} {P : L.Stmt → Prop}

theorem Exactly.ret {a : α} {i : Nat → ι} {s : σ} (h : good (.ok a) s) :
    Exactly X ok good (.ret a) i s :=
  iff_of_true h trivial

theorem Exactly.fail {e : ε} {i : Nat → ι} {s : σ} (h : good (.error e) s) :
    Exactly X ok good (.fail e) i s :=
  iff_of_true h trivial

theorem Exactly.stmt {c : L.Stmt} {k : L.Ans c → Prog L ε α} {i : Nat → ι} {s : σ}
    (hok : ok (i 0) c s)
    (h : Exactly X ok good (k (X (i 0) c s).1) (fun n => i (n + 1)) (X (i 0) c s).2) :
    Exactly X ok good (.stmt c k) i s :=
  h.trans (and_iff_right hok).symm

/-- The statements of the first part meet `ok` anyhow. -/
theorem Exactly.bind {p : Prog L ε β} {f : β → Prog L ε α} {Q : Except ε β → σ → Prop}
    {i : Nat → ι} {s : σ} (hp : p.Issues P) (hok : ∀ i c s, P c → ok i c s)
    (hwp : wp X anyStep p Q s) (herr : ∀ e s', Q (.error e) s' → good (.error e) s')
    (hf : ∀ a i' s', Q (.ok a) s' → Exactly X ok good (f a) i' s') :
    Exactly X ok good (p.bind f) i s := by
  induction p generalizing i s with
  | ret a => exact hf a i s hwp
  | fail e => exact .fail (herr e s hwp)
  | stmt c k ih => exact .stmt (hok _ _ _ hp.1) (ih _ (hp.2 _) (hwp (i 0) trivial))

/-! ## Invariants -/

/-- Every run of the program from a state with `I` ends in a state with `I`. -/
def Keeps (X : Exec L ι σ) (ok : ι → L.Stmt → σ → Prop) (I : σ → Prop) (p : Prog L ε α) : Prop :=
  ∀ s, I s → wp X ok p (fun _ s => I s) s

variable {I : σ → Prop}

theorem Keeps.run {p : Prog L ε α} (h : Keeps X ok I p) {i : Nat → ι} {s : σ} (hs : I s)
    (hi : Meets X ok p i s) : I (Prog.run X p i s).state :=
  wp_run (h s hs) hi

theorem Keeps.compositional :
    Compositional (L := L) (ε := ε) fun _ p => Keeps X ok I p where
  ret _ := fun _ hs => hs
  fail _ := fun _ hs => hs
  bind {_ _ p f} hp hf := by
    intro s hs
    refine wp_bind.mpr (wp_mono ?_ (hp s hs))
    rintro (e | a) s' h'
    · exact h'
    · exact hf a s' h'

theorem Keeps.issue {c : L.Stmt} (h : ∀ i s, ok i c s → I s → I (X i c s).2) :
    Keeps (ε := ε) X ok I (issue c) :=
  fun s hs i hi => h i s hi hs

/-- Every program keeps what every statement preserves. -/
theorem Keeps.of_steps (h : ∀ i c s, ok i c s → I s → I (X i c s).2) {p : Prog L ε α} :
    Keeps X ok I p := by
  induction p with
  | ret a => exact fun _ hs => hs
  | fail e => exact fun _ hs => hs
  | stmt c k ih => exact fun s hs i hi => ih _ _ (h i c s hi hs)

/-- A program keeps what each of its statements preserves. -/
theorem Issues.keeps (h : ∀ i c s, P c → ok i c s → I s → I (X i c s).2) {p : Prog L ε α}
    (hp : p.Issues P) : Keeps X ok I p := by
  induction p with
  | ret a => exact fun _ hs => hs
  | fail e => exact fun _ hs => hs
  | stmt c k ih => exact fun s hs i hi => ih _ (hp.2 _) _ (h i c s hp.1 hi hs)

end Prog
end Interleave
