/-!
# Rekuest.Interleave.Prog

Programs as trees of atomic statements, over any statement language.

* `Prog L ε α`: a program that issues statements of `L`, fails with an `ε` or returns an `α`.
* `Prog.run`: the program runs alone, from a state, to its end.
* `Prog.upTo`: the first `n` statements only; what is left of a program that is cut off.
* `Compositional`: the properties of programs that sequencing keeps, with their loop rules.
* `Issues`: every statement a program can issue satisfies a predicate. `Yields`: so does every value
  it can return.
* `run_rel`: the two-run rule.

A statement takes an input from outside the state (a clock reading, a random choice); a run
reads its inputs one for each statement.
-/

namespace Interleave

/-- A statement language: its statements, and the type of what each of them answers. -/
structure Lang where
  Stmt : Type
  Ans : Stmt → Type

inductive Prog (L : Lang) (ε α : Type) where
  | ret (a : α)
  | fail (e : ε)
  | stmt (c : L.Stmt) (k : L.Ans c → Prog L ε α)

/-- How statements act: answer and next state of statement `c` with input `i` in state `s`. -/
abbrev Exec (L : Lang) (ι σ : Type) := ι → (c : L.Stmt) → σ → L.Ans c × σ

/-- The end of a run: the result, the inputs not read yet, and the state. -/
structure Outcome (ε α ι σ : Type) where
  result : Except ε α
  inputs : Nat → ι
  state : σ

namespace Prog

variable {L : Lang} {ε α β γ ι σ : Type}

def bind : Prog L ε α → (α → Prog L ε β) → Prog L ε β
  | .ret a, f => f a
  | .fail e, _ => .fail e
  | .stmt c k, f => .stmt c fun a => (k a).bind f

instance : Monad (Prog L ε) where
  pure := .ret
  bind := bind

/-- The program that issues one statement and returns its answer. -/
def issue (c : L.Stmt) : Prog L ε (L.Ans c) := .stmt c .ret

/-- `for x in xs: f(x)`. -/
def forEach (f : β → Prog L ε Unit) : List β → Prog L ε Unit
  | [] => .ret ()
  | x :: xs => (f x).bind fun _ => forEach f xs

/-- `[f(x) for x in xs]`. -/
def collect (f : β → Prog L ε γ) : List β → Prog L ε (List γ)
  | [] => .ret []
  | x :: xs => (f x).bind fun y => (collect f xs).bind fun ys => .ret (y :: ys)

/-- The statement the program issues next, if it is not at its end. -/
def next? : Prog L ε α → Option L.Stmt
  | .stmt c _ => some c
  | _ => none

/-- What the program returns, if it has returned. -/
def value? : Prog L ε α → Option α
  | .ret a => some a
  | _ => none

/-- Run the program and catch what it raises. -/
def attempt : Prog L ε α → Prog L ε (Except ε α)
  | .ret a => .ret (.ok a)
  | .fail e => .ret (.error e)
  | .stmt c k => .stmt c fun a => (k a).attempt

theorem value?_eq_some {p : Prog L ε α} {a : α} : p.value? = some a ↔ p = .ret a := by
  cases p <;> simp [value?]

@[simp] theorem pure_eq (a : α) : (pure a : Prog L ε α) = .ret a := rfl

@[simp] theorem bind_eq (p : Prog L ε α) (f : α → Prog L ε β) : p >>= f = p.bind f := rfl

@[simp] theorem ret_bind (a : α) (f : α → Prog L ε β) : (Prog.ret a).bind f = f a := rfl

@[simp] theorem fail_bind (e : ε) (f : α → Prog L ε β) :
    (Prog.fail e : Prog L ε α).bind f = .fail e := rfl

@[simp] theorem stmt_bind (c : L.Stmt) (k : L.Ans c → Prog L ε α) (f : α → Prog L ε β) :
    (Prog.stmt c k).bind f = .stmt c fun a => (k a).bind f := rfl

@[simp] theorem issue_bind (c : L.Stmt) (f : L.Ans c → Prog L ε β) :
    (issue c).bind f = .stmt c f := rfl

theorem bind_assoc (p : Prog L ε α) (f : α → Prog L ε β) (g : β → Prog L ε γ) :
    (p.bind f).bind g = p.bind fun a => (f a).bind g := by
  induction p with
  | ret a => rfl
  | fail e => rfl
  | stmt c k ih => simp only [stmt_bind, ih]

/-! ## Running alone -/

def run (X : Exec L ι σ) : Prog L ε α → (Nat → ι) → σ → Outcome ε α ι σ
  | .ret a, i, s => ⟨.ok a, i, s⟩
  | .fail e, i, s => ⟨.error e, i, s⟩
  | .stmt c k, i, s => run X (k (X (i 0) c s).1) (fun n => i (n + 1)) (X (i 0) c s).2

variable (X : Exec L ι σ) (i : Nat → ι) (s : σ)

@[simp] theorem run_ret (a : α) : run X (.ret a : Prog L ε α) i s = ⟨.ok a, i, s⟩ := rfl

@[simp] theorem run_fail (e : ε) : run X (.fail e : Prog L ε α) i s = ⟨.error e, i, s⟩ := rfl

@[simp] theorem run_stmt (c : L.Stmt) (k : L.Ans c → Prog L ε α) :
    run X (.stmt c k) i s =
      run X (k (X (i 0) c s).1) (fun n => i (n + 1)) (X (i 0) c s).2 := rfl

/-- Sequencing: the second program runs on what the first one left, if that one returned. -/
theorem run_bind (p : Prog L ε α) (f : α → Prog L ε β) :
    run X (p.bind f) i s =
      match run X p i s with
      | ⟨.ok a, i', s'⟩ => run X (f a) i' s'
      | ⟨.error e, i', s'⟩ => ⟨.error e, i', s'⟩ := by
  induction p generalizing i s with
  | ret a => rfl
  | fail e => rfl
  | stmt c k ih => simp only [stmt_bind, run_stmt, ih]

theorem run_bind_ok {p : Prog L ε α} {f : α → Prog L ε β} {a : α} {i' : Nat → ι} {s' : σ}
    (h : run X p i s = ⟨.ok a, i', s'⟩) : run X (p.bind f) i s = run X (f a) i' s' := by
  rw [run_bind, h]

/-- The statements of a run, in the order they were issued. -/
def trace (X : Exec L ι σ) : Prog L ε α → (Nat → ι) → σ → List L.Stmt
  | .ret _, _, _ => []
  | .fail _, _, _ => []
  | .stmt c k, i, s =>
    c :: trace X (k (X (i 0) c s).1) (fun n => i (n + 1)) (X (i 0) c s).2

/-- A run cut off after `n` statements: the state it leaves. -/
def upTo (X : Exec L ι σ) : Nat → Prog L ε α → (Nat → ι) → σ → σ
  | 0, _, _, s => s
  | _ + 1, .ret _, _, s => s
  | _ + 1, .fail _, _, s => s
  | n + 1, .stmt c k, i, s =>
    upTo X n (k (X (i 0) c s).1) (fun m => i (m + 1)) (X (i 0) c s).2

@[simp] theorem upTo_zero (p : Prog L ε α) : upTo X 0 p i s = s := by
  cases p <;> rfl

@[simp] theorem upTo_ret (n : Nat) (a : α) : upTo X n (.ret a : Prog L ε α) i s = s := by
  cases n <;> rfl

@[simp] theorem upTo_fail (n : Nat) (e : ε) : upTo X n (.fail e : Prog L ε α) i s = s := by
  cases n <;> rfl

@[simp] theorem upTo_stmt (n : Nat) (c : L.Stmt) (k : L.Ans c → Prog L ε α) :
    upTo X (n + 1) (.stmt c k) i s =
      upTo X n (k (X (i 0) c s).1) (fun m => i (m + 1)) (X (i 0) c s).2 := rfl

/-- Cutting off at or after the last statement cuts nothing. -/
theorem upTo_of_length_le (p : Prog L ε α) (n : Nat) (h : (trace X p i s).length ≤ n) :
    upTo X n p i s = (run X p i s).state := by
  induction p generalizing n i s with
  | ret a => simp
  | fail e => simp
  | stmt c k ih =>
    cases n with
    | zero => simp [trace] at h
    | succ n =>
      simp only [trace, List.length_cons, Nat.add_le_add_iff_right] at h
      simp only [upTo_stmt, run_stmt]
      exact ih _ _ _ _ h

/-! ## Compositional properties -/

/-- A property that returns and failures have, and that sequencing keeps. -/
structure Compositional (Q : (α : Type) → Prog L ε α → Prop) : Prop where
  ret : ∀ {α : Type} (a : α), Q α (.ret a)
  fail : ∀ {α : Type} (e : ε), Q α (.fail e)
  bind : ∀ {α β : Type} {p : Prog L ε α} {f : α → Prog L ε β}, Q α p → (∀ a, Q β (f a)) →
    Q β (p.bind f)

namespace Compositional

variable {Q : (α : Type) → Prog L ε α → Prop}

theorem forEach (hQ : Compositional Q) {f : β → Prog L ε Unit} {xs : List β}
    (hf : ∀ x ∈ xs, Q Unit (f x)) : Q Unit (Prog.forEach f xs) := by
  induction xs with
  | nil => exact hQ.ret ()
  | cons x xs ih => exact hQ.bind (hf x (by simp)) fun _ => ih fun y hy => hf y (by simp [hy])

theorem collect (hQ : Compositional Q) {f : β → Prog L ε γ} {xs : List β}
    (hf : ∀ x, Q γ (f x)) : Q (List γ) (Prog.collect f xs) := by
  induction xs with
  | nil => exact hQ.ret []
  | cons x xs ih => exact hQ.bind (hf x) fun _ => hQ.bind ih fun _ => hQ.ret _

end Compositional

/-- Every statement the program can issue, whatever the answers, satisfies `P`. -/
def Issues (P : L.Stmt → Prop) : Prog L ε α → Prop
  | .ret _ => True
  | .fail _ => True
  | .stmt c k => P c ∧ ∀ a, (k a).Issues P

variable {P Q : L.Stmt → Prop}

theorem Issues.mono (h : ∀ c, P c → Q c) {p : Prog L ε α} (hp : p.Issues P) : p.Issues Q := by
  induction p with
  | ret a => trivial
  | fail e => trivial
  | stmt c k ih => exact ⟨h c hp.1, fun a => ih a (hp.2 a)⟩

theorem Issues.next {p : Prog L ε α} (hp : p.Issues P) {c : L.Stmt} (hc : p.next? = some c) :
    P c := by
  cases p with
  | ret a => cases hc
  | fail e => cases hc
  | stmt d k => cases hc; exact hp.1

theorem Issues.issue {c : L.Stmt} (h : P c) : (issue c : Prog L ε _).Issues P :=
  ⟨h, fun _ => trivial⟩

theorem Issues.bind {p : Prog L ε α} {f : α → Prog L ε β} (hp : p.Issues P)
    (hf : ∀ a, (f a).Issues P) : (p.bind f).Issues P := by
  induction p with
  | ret a => exact hf a
  | fail e => trivial
  | stmt c k ih => exact ⟨hp.1, fun a => ih a (hp.2 a)⟩

theorem Issues.issue_bind {c : L.Stmt} {f : L.Ans c → Prog L ε β} (h : P c)
    (hf : ∀ a, (f a).Issues P) : ((Prog.issue c).bind f).Issues P :=
  ⟨h, hf⟩

theorem Issues.compositional : Compositional (L := L) (ε := ε) fun _ p => p.Issues P where
  ret _ := trivial
  fail _ := trivial
  bind := Issues.bind

theorem Issues.attempt {p : Prog L ε α} (hp : p.Issues P) : p.attempt.Issues P := by
  induction p with
  | ret a => trivial
  | fail e => trivial
  | stmt c k ih => exact ⟨hp.1, fun a => ih a (hp.2 a)⟩

/-- Given only answers of `real`, the program returns only values that `Q` accepts. -/
def Yields (real : (c : L.Stmt) → L.Ans c → Prop) (Q : α → Prop) : Prog L ε α → Prop
  | .ret a => Q a
  | .fail _ => True
  | .stmt c k => ∀ a, real c a → (k a).Yields real Q

section Yields

variable {real : (c : L.Stmt) → L.Ans c → Prop} {Y : α → Prop} {Z : β → Prop}

theorem yields_any {p : Prog L ε α} : p.Yields real fun _ => True := by
  induction p with
  | ret a => trivial
  | fail e => trivial
  | stmt c k ih => exact fun a _ => ih a

theorem Yields.bind {p : Prog L ε α} {f : α → Prog L ε β} (hp : p.Yields real Y)
    (hf : ∀ a, Y a → (f a).Yields real Z) : (p.bind f).Yields real Z := by
  induction p with
  | ret a => exact hf a hp
  | fail e => trivial
  | stmt c k ih => exact fun a ha => ih a (hp a ha)

/-- Whatever the first part returns, the rest yields. -/
theorem yields_bind {p : Prog L ε α} {f : α → Prog L ε β} (hf : ∀ a, (f a).Yields real Z) :
    (p.bind f).Yields real Z :=
  yields_any.bind fun a _ => hf a

/-- Each value of the loop is one that its body yields. -/
theorem yields_collect {f : β → Prog L ε γ} {W : γ → Prop} {xs : List β}
    (hf : ∀ x ∈ xs, (f x).Yields real W) :
    (Prog.collect f xs).Yields real fun ys => ∀ y ∈ ys, W y := by
  induction xs with
  | nil => exact fun y hy => by cases hy
  | cons x xs ih =>
    refine (hf x (by simp)).bind fun y hy =>
      (ih fun x' hx' => hf x' (by simp [hx'])).bind fun ys hys => ?_
    intro y' hy'
    rcases List.mem_cons.mp hy' with rfl | hy'
    · exact hy
    · exact hys y' hy'

end Yields

/-- Invariant rule: what every issued statement preserves, the run preserves. -/
theorem run_inv {I : σ → Prop} (hX : ∀ i c s, P c → I s → I (X i c s).2)
    {p : Prog L ε α} (hp : p.Issues P) (hs : I s) : I (run X p i s).state := by
  induction p generalizing i s with
  | ret a => exact hs
  | fail e => exact hs
  | stmt c k ih => exact ih _ _ _ (hp.2 _) (hX _ _ _ hp.1 hs)

/-- The same for a run that is cut off. -/
theorem upTo_inv {I : σ → Prop} (hX : ∀ i c s, P c → I s → I (X i c s).2)
    {p : Prog L ε α} (hp : p.Issues P) (n : Nat) (hs : I s) : I (upTo X n p i s) := by
  induction p generalizing n i s with
  | ret a => rwa [upTo_ret]
  | fail e => rwa [upTo_fail]
  | stmt c k ih =>
    cases n with
    | zero => rwa [upTo_zero]
    | succ n => exact ih _ _ _ (hp.2 _) n (hX _ _ _ hp.1 hs)

/-- Two-run rule: if every statement answers the same in related states and keeps them related,
the two runs end alike. -/
theorem run_rel {R : σ → σ → Prop}
    (hX : ∀ i c s s', R s s' → (X i c s).1 = (X i c s').1 ∧ R (X i c s).2 (X i c s').2)
    (p : Prog L ε α) {s' : σ} (hs : R s s') :
    (run X p i s).result = (run X p i s').result ∧ R (run X p i s).state (run X p i s').state := by
  induction p generalizing i s s' with
  | ret a => exact ⟨rfl, hs⟩
  | fail e => exact ⟨rfl, hs⟩
  | stmt c k ih =>
    obtain ⟨ha, hr⟩ := hX (i 0) c s s' hs
    simp only [run_stmt]
    rw [ha]
    exact ih _ _ _ hr

end Prog
end Interleave
