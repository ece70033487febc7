import Mathlib.Data.List.Forall2

/-!
# Rekuest.Coding.Words

Encodings that can be told apart where they stand, with more to come after them.

* `Told stop encode R a`: where the encoding of `a` and that of another value read the same, each
  with a rest after it that meets `stop`, the other value is related to `a` and the rests are the same.
* `Told.of_read`: an encoding that can be read back. `Told.pair`, `Told.flatMap`, `Told.joined`:
  encodings of pairs and of lists. `word_append`: words, told by the characters they do not have.
-/

namespace Coding

variable {α β σ : Type} {stop stop' : List σ → Prop} {encode : α → List σ} {R R' : α → α → Prop}
  {a : α} {as : List α} {sep close : σ}

/-- `sep.join(words)`. -/
def joined (sep : σ) : List (List σ) → List σ
  | [] => []
  | w :: ws => w ++ ws.flatMap (sep :: ·)

/-- Any rest will do. -/
def anyRest : List σ → Prop := fun _ => True

def Told (stop : List σ → Prop) (encode : α → List σ) (R : α → α → Prop) (a : α) : Prop :=
  ∀ b r r', stop r → stop r' → encode a ++ r = encode b ++ r' → R a b ∧ r = r'

namespace Told

theorem of_read {read : List σ → Option (α × List σ)}
    (h : ∀ a r, read (encode a ++ r) = some (a, r)) : Told stop encode Eq a := by
  intro b r r' _ _ heq
  have hread := h a r
  rw [heq, h b r'] at hread
  cases hread
  exact ⟨rfl, rfl⟩

/-- The encoding of a pair: the second part is a rest that the first one can be told before. -/
theorem pair {encode' : β → List σ} {T : β → β → Prop} {b : β} (ha : Told stop encode R a)
    (hb : Told stop' encode' T b) (hstop : ∀ b r, stop' r → stop (encode' b ++ r)) :
    Told stop' (fun x : α × β => encode x.1 ++ encode' x.2)
      (fun x y => R x.1 y.1 ∧ T x.2 y.2) (a, b) := by
  intro y r r' hr hr' heq
  simp only [List.append_assoc] at heq
  obtain ⟨hR, hrest⟩ := ha y.1 _ _ (hstop b r hr) (hstop y.2 r' hr') heq
  obtain ⟨hT, hrest⟩ := hb y.2 r r' hr hr' hrest
  exact ⟨⟨hR, hT⟩, hrest⟩

/-- Behind a mark. -/
theorem cons {c : σ} (h : Told stop encode R a) : Told stop (fun a => c :: encode a) R a := by
  intro b r r' hr hr' heq
  exact h b r r' hr hr' (List.cons.inj heq).2

/-- One encoding after the other, and a closing mark that none of them begins with. -/
theorem flatMap (hopen : ∀ a r r', encode a ++ r ≠ close :: r')
    (hstop : ∀ (as : List α) r, stop (as.flatMap encode ++ close :: r))
    (h : ∀ a ∈ as, Told stop encode R a) :
    Told anyRest (fun as => as.flatMap encode ++ [close]) (List.Forall₂ R) as := by
  induction as with
  | nil =>
    intro bs r r' _ _ heq
    cases bs with
    | nil => exact ⟨.nil, (List.cons.inj heq).2⟩
    | cons b bs =>
      simp only [List.flatMap_nil, List.nil_append, List.flatMap_cons, List.append_assoc] at heq
      exact absurd heq.symm (hopen b _ r)
  | cons a as ih =>
    intro bs r r' _ _ heq
    cases bs with
    | nil =>
      simp only [List.flatMap_nil, List.nil_append, List.flatMap_cons, List.append_assoc] at heq
      exact absurd heq (hopen a _ r')
    | cons b bs =>
      simp only [List.flatMap_cons, List.append_assoc, List.cons_append, List.nil_append] at heq
      obtain ⟨hab, hrest⟩ := h a (by simp) b _ _ (hstop as r) (hstop bs r') heq
      obtain ⟨hall, hrr⟩ := ih (fun a ha => h a (by simp [ha])) bs r r' trivial trivial
        (by simpa using hrest)
      exact ⟨.cons hab hall, hrr⟩

/-- The same with a separator between the encodings. -/
theorem joined (hsep : sep ≠ close) (hopen : ∀ a r r', encode a ++ r ≠ close :: r')
    (hstop : ∀ c r, c = sep ∨ c = close → stop (c :: r)) (h : ∀ a ∈ as, Told stop encode R a) :
    Told anyRest (fun as => Coding.joined sep (as.map encode) ++ [close]) (List.Forall₂ R) as := by
  have hrest : ∀ (as : List α) (r : List σ),
      stop (as.flatMap (fun a => sep :: encode a) ++ close :: r) := by
    intro as r
    cases as with
    | nil => exact hstop close r (.inr rfl)
    | cons a as => exact hstop sep _ (.inl rfl)
  have hjoined : ∀ a as r, Coding.joined sep ((a :: as).map encode) ++ [close] ++ r =
      encode a ++ (as.flatMap (fun a => sep :: encode a) ++ close :: r) := by
    intro a as r
    simp [Coding.joined, List.flatMap_map]
  intro bs r r' _ _ heq
  dsimp only at heq
  cases as with
  | nil =>
    cases bs with
    | nil => exact ⟨.nil, (List.cons.inj heq).2⟩
    | cons b bs =>
      rw [hjoined] at heq
      exact absurd heq.symm (hopen b _ r)
  | cons a as =>
    cases bs with
    | nil =>
      rw [hjoined] at heq
      exact absurd heq (hopen a _ r')
    | cons b bs =>
      rw [hjoined, hjoined] at heq
      obtain ⟨hab, heq⟩ := h a (by simp) b _ _ (hrest as r) (hrest bs r') heq
      have htail : Told anyRest (fun as => as.flatMap (fun a => sep :: encode a) ++ [close])
          (List.Forall₂ R) as :=
        flatMap (fun _ _ _ h => hsep (List.cons.inj h).1) hrest fun a ha => (h a (by simp [ha])).cons
      obtain ⟨hall, hrr⟩ := htail bs r r' trivial trivial (by simpa using heq)
      exact ⟨.cons hab hall, hrr⟩

end Told

/-- A word ends where a rest begins: at a character that words do not have. -/
theorem word_append {p : σ → Bool} {u v r r' : List σ} (hu : ∀ c ∈ u, p c = true)
    (hv : ∀ c ∈ v, p c = true) (hr : ∀ c ∈ r.head?, p c = false)
    (hr' : ∀ c ∈ r'.head?, p c = false) (heq : u ++ r = v ++ r') : u = v ∧ r = r' := by
  have htake : ∀ {u r : List σ}, (∀ c ∈ u, p c = true) → (∀ c ∈ r.head?, p c = false) →
      (u ++ r).takeWhile p = u ∧ (u ++ r).dropWhile p = r := by
    intro u r hu hr
    rw [List.takeWhile_append_of_pos hu, List.dropWhile_append_of_pos hu]
    cases r with
    | nil => simp
    | cons c r => simp [hr c rfl]
  obtain ⟨hu, hr⟩ := htake hu hr
  obtain ⟨hv, hr'⟩ := htake hv hr'
  rw [heq, hv] at hu
  rw [heq, hr'] at hr
  exact ⟨hu.symm, hr.symm⟩

end Coding
