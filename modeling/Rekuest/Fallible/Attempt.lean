import Mathlib.Data.List.Basic

/-!
# Rekuest.Fallible.Attempt

Computations on a state that may raise, and that need not finish. What was written before an
error was raised stays written.

* `Attempt`: the monad. `raise`, `look`, `write`, `atomically`, `attempt` are its steps.
* `Ends`: the computation finishes, and meets one condition where it answers and another where it
  raises. One rule for each step, and `ends_forM` for a loop, by what holds before each turn.
* `Extends`: what finishes the same with more fuel. It is kept by sequences and by loops.
-/

namespace Fallible

def Attempt (σ ε α : Type) := σ → Option (Except ε α × σ)

namespace Attempt

variable {σ ε α β : Type}

def andThen (x : Attempt σ ε α) (f : α → Attempt σ ε β) : Attempt σ ε β := fun s =>
  match x s with
  | none => none
  | some (.error e, s') => some (.error e, s')
  | some (.ok a, s') => f a s'

instance : Monad (Attempt σ ε) where
  pure a s := some (.ok a, s)
  bind := andThen

def raise (e : ε) : Attempt σ ε α := fun s => some (.error e, s)

/-- What the state shows. -/
def look (f : σ → α) : Attempt σ ε α := fun s => some (.ok (f s), s)

def write (f : σ → σ) : Attempt σ ε Unit := fun s => some (.ok (), f s)

/-- A step that writes all of what it writes, or raises and writes nothing. -/
def atomically (f : σ → Except ε (α × σ)) : Attempt σ ε α := fun s =>
  match f s with
  | .ok r => some (.ok r.1, r.2)
  | .error e => some (.error e, s)

/-- A computation that does not use the state. -/
def attempt (x : Except ε α) : Attempt σ ε α := fun s => some (x, s)

/-- No fuel is left. -/
def unfinished : Attempt σ ε α := fun _ => none

/-! ## How a computation ends -/

/-- The computation finishes: of an answer and the state left the first condition holds, of an
error and the state left the second. -/
def Ends (x : Attempt σ ε α) (s : σ) (answered : α → σ → Prop) (raised : ε → σ → Prop) : Prop :=
  (∃ a s', x s = some (.ok a, s') ∧ answered a s') ∨ ∃ e s', x s = some (.error e, s') ∧ raised e s'

section

variable {x : Attempt σ ε α} {s : σ} {Q Q' : α → σ → Prop} {R : β → σ → Prop}
  {E E' : ε → σ → Prop}

theorem Ends.mono (h : Ends x s Q E) (hQ : ∀ a s', Q a s' → Q' a s')
    (hE : ∀ e s', E e s' → E' e s') : Ends x s Q' E' := by
  rcases h with ⟨a, s', hx, hq⟩ | ⟨e, s', hx, he⟩
  · exact .inl ⟨a, s', hx, hQ a s' hq⟩
  · exact .inr ⟨e, s', hx, hE e s' he⟩

/-- A computation ends in one way. -/
theorem Ends.and (h : Ends x s Q E) (h' : Ends x s Q' E') :
    Ends x s (fun a t => Q a t ∧ Q' a t) fun e t => E e t ∧ E' e t := by
  rcases h with ⟨a, t, hx, hq⟩ | ⟨e, t, hx, he⟩ <;>
    rcases h' with ⟨a', t', hx', hq'⟩ | ⟨e', t', hx', he'⟩ <;> rw [hx] at hx' <;> cases hx'
  · exact .inl ⟨a, t, hx, hq, hq'⟩
  · exact .inr ⟨e, t, hx, he, he'⟩

theorem ends_pure {a : α} (h : Q a s) : Ends (pure a) s Q E := .inl ⟨a, s, rfl, h⟩

theorem ends_raise {e : ε} (h : E e s) : Ends (raise e) s Q E := .inr ⟨e, s, rfl, h⟩

theorem ends_look {f : σ → α} (h : Q (f s) s) : Ends (look f) s Q E := .inl ⟨f s, s, rfl, h⟩

theorem ends_write {f : σ → σ} {Q : Unit → σ → Prop} (h : Q () (f s)) : Ends (write f) s Q E :=
  .inl ⟨(), f s, rfl, h⟩

theorem ends_atomically {f : σ → Except ε (α × σ)} (hok : ∀ r, f s = .ok r → Q r.1 r.2)
    (herror : ∀ e, f s = .error e → E e s) : Ends (atomically f) s Q E := by
  unfold Ends atomically
  cases hf : f s with
  | ok r => exact .inl ⟨r.1, r.2, rfl, hok r hf⟩
  | error e => exact .inr ⟨e, s, rfl, herror e hf⟩

theorem ends_attempt {y : Except ε α} (hok : ∀ a, y = .ok a → Q a s)
    (herror : ∀ e, y = .error e → E e s) : Ends (attempt y) s Q E := by
  cases y with
  | ok a => exact .inl ⟨a, s, rfl, hok a rfl⟩
  | error e => exact .inr ⟨e, s, rfl, herror e rfl⟩

/-- An error of the first part is one of the whole. -/
theorem ends_bind {f : α → Attempt σ ε β} (h : Ends x s (fun a s' => Ends (f a) s' R E) E) :
    Ends (x >>= f) s R E := by
  show Ends (andThen x f) s R E
  rcases h with ⟨a, s', hx, ⟨b, s'', hf, hr⟩ | ⟨e, s'', hf, he⟩⟩ | ⟨e, s', hx, he⟩
  · exact .inl ⟨b, s'', by rw [andThen, hx]; exact hf, hr⟩
  · exact .inr ⟨e, s'', by rw [andThen, hx]; exact hf, he⟩
  · exact .inr ⟨e, s', by rw [andThen, hx], he⟩

/-- A loop: what holds before a turn holds before the next one. -/
theorem ends_forM {γ : Type} {f : γ → Attempt σ ε PUnit} (I : List γ → σ → Prop) {l : List γ}
    (step : ∀ c cs t, I (c :: cs) t → Ends (f c) t (fun _ t' => I cs t') E) (hI : I l s) :
    Ends (l.forM f) s (fun _ s' => I [] s') E := by
  induction l generalizing s with
  | nil => exact ends_pure hI
  | cons c cs ih =>
    show Ends (f c >>= fun _ => cs.forM f) s _ E
    exact ends_bind ((step c cs s hI).mono (fun _ s' h => ih h) fun _ _ h => h)

end

/-! ## Fuel -/

/-- Where the one finishes, the other finishes the same. -/
def Extends (x y : Attempt σ ε α) : Prop := ∀ s r, x s = some r → y s = some r

namespace Extends

variable {x y : Attempt σ ε α}

theorem refl (x : Attempt σ ε α) : Extends x x := fun _ _ h => h

theorem unfinished : Extends unfinished y := by
  intro s r h
  cases h

theorem bind {f g : α → Attempt σ ε β} (h : Extends x y) (hf : ∀ a, Extends (f a) (g a)) :
    Extends (x >>= f) (y >>= g) := by
  intro s r hr
  replace hr : andThen x f s = some r := hr
  show andThen y g s = some r
  unfold andThen at hr ⊢
  cases hx : x s with
  | none =>
    rw [hx] at hr
    cases hr
  | some p =>
    rw [h s p hx]
    rw [hx] at hr
    obtain ⟨_ | a, s'⟩ := p
    · exact hr
    · exact hf a s' r hr

theorem forM {γ : Type} {f g : γ → Attempt σ ε PUnit} (h : ∀ c, Extends (f c) (g c))
    (xs : List γ) : Extends (xs.forM f) (xs.forM g) := by
  induction xs with
  | nil => exact .refl _
  | cons c cs ih =>
    show Extends (f c >>= fun _ => cs.forM f) (g c >>= fun _ => cs.forM g)
    exact (h c).bind fun _ => ih

end Extends

end Attempt
end Fallible
