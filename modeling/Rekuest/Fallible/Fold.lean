import Mathlib.Data.List.Forall2

/-!
# Rekuest.Fallible.Fold

Computations that may raise, one after the other, and loops of them.

* `bind_ok_iff`: a sequence answers when both of its parts do.
* `foldlM_total`: a loop whose every turn answers answers. `foldlM_simulates`: two loops whose
  turns do the same do the same.
-/

namespace Fallible

variable {ε α β γ : Type}

theorem bind_ok_iff {x : Except ε α} {f : α → Except ε β} {b : β} :
    (x >>= f) = .ok b ↔ ∃ a, x = .ok a ∧ f a = .ok b := by
  cases x with
  | error e =>
    constructor
    · intro h
      cases h
    · intro h
      obtain ⟨_, h, _⟩ := h
      cases h
  | ok a =>
    constructor
    · intro h
      exact ⟨a, rfl, h⟩
    · intro h
      obtain ⟨_, h, hf⟩ := h
      cases h
      exact hf

theorem bind_ok {x : Except ε α} {f : α → Except ε β} {a : α} (h : x = .ok a) :
    (x >>= f) = f a := by
  rw [h]
  rfl

theorem pure_ok_iff {a b : α} : (pure a : Except ε α) = .ok b ↔ a = b := by
  constructor
  · intro h
    cases h
    rfl
  · intro h
    rw [h]
    rfl

/-- What is there, or else an error. -/
def orRaise (e : ε) : Option α → Except ε α
  | some a => .ok a
  | none => .error e

theorem orRaise_ok_iff {e : ε} {x : Option α} {a : α} : orRaise e x = .ok a ↔ x = some a := by
  cases x <;> simp [orRaise]

variable {f : β → α → Except ε β} {xs : List α} {x : α} {b b' : β}

theorem foldlM_nil_iff : List.foldlM f b ([] : List α) = .ok b' ↔ b = b' := pure_ok_iff

theorem foldlM_cons_iff :
    List.foldlM f b (x :: xs) = .ok b' ↔ ∃ c, f b x = .ok c ∧ List.foldlM f c xs = .ok b' := by
  rw [List.foldlM_cons]
  exact bind_ok_iff

/-- No turn raises, whatever the turns before left. -/
theorem foldlM_total (h : ∀ x ∈ xs, ∀ b, ∃ c, f b x = .ok c) (b : β) :
    ∃ b', xs.foldlM f b = .ok b' := by
  induction xs generalizing b with
  | nil => exact ⟨b, rfl⟩
  | cons x xs ih =>
    obtain ⟨c, hc⟩ := h x List.mem_cons_self b
    obtain ⟨b', hb'⟩ := ih (fun y hy => h y (List.mem_cons_of_mem _ hy)) c
    exact ⟨b', foldlM_cons_iff.mpr ⟨c, hc, hb'⟩⟩

/-- What every turn leaves related, the loop leaves related. -/
theorem foldlM_related {R : β → β → Prop} (hrefl : ∀ b, R b b)
    (htrans : ∀ a b c, R a b → R b c → R a c) (hstep : ∀ b x c, f b x = .ok c → R b c)
    (h : xs.foldlM f b = .ok b') : R b b' := by
  induction xs generalizing b with
  | nil =>
    rw [foldlM_nil_iff] at h
    rw [h]
    exact hrefl b'
  | cons x xs ih =>
    obtain ⟨c, hc, hrest⟩ := foldlM_cons_iff.mp h
    exact htrans b c b' (hstep b x c hc) (ih hrest)

/-- Two loops whose turns do the same, as long as what each turn keeps of the turns that are left
holds. -/
theorem foldlM_simulates {g : β → γ} {f' : γ → α → Except ε γ} (I : List α → β → Prop)
    (step : ∀ x xs b, I (x :: xs) b →
      (f b x).map g = f' (g b) x ∧ ∀ c, f b x = .ok c → I xs c) (hI : I xs b) :
    (xs.foldlM f b).map g = xs.foldlM f' (g b) := by
  induction xs generalizing b with
  | nil => rfl
  | cons x xs ih =>
    obtain ⟨hsame, hkeep⟩ := step x xs b hI
    rw [List.foldlM_cons, List.foldlM_cons, ← hsame]
    cases hx : f b x with
    | error e => rfl
    | ok c => exact ih (hkeep c hx)

/-- One result for each, in their order. -/
theorem mapM_ok_iff {g : α → Except ε β} {ys : List β} :
    xs.mapM g = .ok ys ↔ List.Forall₂ (fun x y => g x = .ok y) xs ys := by
  induction xs generalizing ys with
  | nil =>
    rw [List.mapM_nil, pure_ok_iff, List.forall₂_nil_left_iff, eq_comm]
  | cons x xs ih =>
    simp only [List.mapM_cons, bind_ok_iff, pure_ok_iff, ih, List.forall₂_cons_left_iff]
    constructor
    · rintro ⟨y, hy, ys, hys, rfl⟩
      exact ⟨y, ys, hy, hys, rfl⟩
    · rintro ⟨y, ys, hy, hys, rfl⟩
      exact ⟨y, hy, ys, hys, rfl⟩

/-- The same of optional results. -/
theorem mapM_some_iff {g : α → Option β} {ys : List β} :
    xs.mapM g = some ys ↔ List.Forall₂ (fun x y => g x = some y) xs ys := by
  induction xs generalizing ys with
  | nil =>
    rw [List.mapM_nil, List.forall₂_nil_left_iff, eq_comm]
    exact Option.some_inj
  | cons x xs ih =>
    simp only [List.mapM_cons, Option.bind_eq_bind, Option.bind_eq_some_iff, ih,
      List.forall₂_cons_left_iff]
    constructor
    · rintro ⟨y, hy, ys, hys, heq⟩
      cases heq
      exact ⟨y, ys, hy, hys, rfl⟩
    · rintro ⟨y, ys, hy, hys, rfl⟩
      exact ⟨y, hy, ys, hys, rfl⟩

/-! ## Errors -/

theorem mem_left_of_forall₂ {R : α → β → Prop} {ys : List β} (h : List.Forall₂ R xs ys)
    (hx : x ∈ xs) : ∃ y ∈ ys, R x y := by
  induction h with
  | nil => cases hx
  | cons hR _ ih =>
    rcases List.mem_cons.mp hx with rfl | hx
    · exact ⟨_, List.mem_cons_self, hR⟩
    · obtain ⟨y, hy, hR⟩ := ih hx
      exact ⟨y, List.mem_cons_of_mem _ hy, hR⟩

theorem mem_right_of_forall₂ {R : α → β → Prop} {ys : List β} {y : β} (h : List.Forall₂ R xs ys)
    (hy : y ∈ ys) : ∃ x ∈ xs, R x y := by
  obtain ⟨x, hx, hR⟩ := mem_left_of_forall₂ h.flip hy
  exact ⟨x, hx, hR⟩

/-- Equal in what two functions say of the pairs. -/
theorem map_eq_of_forall₂ {γ : Type*} {f : α → γ} {g : β → γ} {ys : List β}
    (h : List.Forall₂ (fun x y => g y = f x) xs ys) : ys.map g = xs.map f := by
  induction h with
  | nil => rfl
  | cons hR _ ih => rw [List.map_cons, List.map_cons, hR, ih]

theorem exists_forall₂ {R : α → β → Prop} (h : ∀ x ∈ xs, ∃ y, R x y) :
    ∃ ys, List.Forall₂ R xs ys := by
  induction xs with
  | nil => exact ⟨[], .nil⟩
  | cons x xs ih =>
    obtain ⟨hx, hxs⟩ := List.forall_mem_cons.mp h
    obtain ⟨y, hy⟩ := hx
    obtain ⟨ys, hys⟩ := ih hxs
    exact ⟨y :: ys, .cons hy hys⟩

end Fallible
