import Rekuest.Coding.Words

/-!
# Rekuest.Coding.Reader

Readers of a word from its front, read again and again.

* `many stop read`: what `read` reads, until the rest is one to `stop` at.
* `many_stop`, `many_read`, `many_none`: its unfolding, without fuel.
* `Reads`: a word that a reader turns into items, whatever comes after it.
-/

namespace Coding

variable {σ α : Type*} {stop : List σ → Bool} {read : List σ → Option (α × List σ)}
  {cs r : List σ} {a : α} {m n : Nat}

/-- Up to `n` times. A reader that reads nothing stops the loop without an answer. -/
def manyN (stop : List σ → Bool) (read : List σ → Option (α × List σ)) :
    Nat → List σ → Option (List α × List σ)
  | 0, _ => none
  | n + 1, cs =>
    if stop cs then some ([], cs)
    else
      match read cs with
      | none => none
      | some p =>
        if p.2.length < cs.length then (manyN stop read n p.2).map fun q => (p.1 :: q.1, q.2)
        else none

def many (stop : List σ → Bool) (read : List σ → Option (α × List σ)) (cs : List σ) :
    Option (List α × List σ) := manyN stop read (cs.length + 1) cs

/-- Enough is enough. -/
theorem manyN_eq (hm : cs.length < m) (hn : cs.length < n) :
    manyN stop read m cs = manyN stop read n cs := by
  induction m generalizing n cs with
  | zero => exact absurd hm (Nat.not_lt_zero _)
  | succ m ih =>
    cases n with
    | zero => exact absurd hn (Nat.not_lt_zero _)
    | succ n =>
      simp only [manyN]
      split
      · rfl
      split
      · rfl
      split
      · rename_i hlt
        rw [ih (n := n) (by omega) (by omega)]
      · rfl

theorem many_stop (h : stop cs = true) : many stop read cs = some ([], cs) := by
  rw [many, manyN, if_pos h]

theorem many_read (hstop : stop cs = false) (hread : read cs = some (a, r))
    (hlt : r.length < cs.length) :
    many stop read cs = (many stop read r).map fun q => (a :: q.1, q.2) := by
  rw [many, manyN, if_neg (by simp [hstop]), hread]
  dsimp only
  rw [if_pos hlt, manyN_eq hlt (Nat.lt_succ_self _)]
  rfl

theorem many_none (hstop : stop cs = false) (hread : read cs = none) :
    many stop read cs = none := by
  rw [many, manyN, if_neg (by simp [hstop]), hread]

/-- What has been read was read item by item. -/
theorem many_eq_some {as : List α} {l : List σ} (h : many stop read cs = some (as, l)) :
    stop cs = true ∧ as = [] ∧ l = cs ∨
      ∃ a r bs, stop cs = false ∧ read cs = some (a, r) ∧ r.length < cs.length ∧
        many stop read r = some (bs, l) ∧ as = a :: bs := by
  cases hstop : stop cs with
  | true =>
    rw [many_stop hstop] at h
    cases h
    exact .inl ⟨rfl, rfl, rfl⟩
  | false =>
    cases hread : read cs with
    | none =>
      rw [many_none hstop hread] at h
      cases h
    | some p =>
      by_cases hlt : p.2.length < cs.length
      · rw [many_read hstop hread hlt] at h
        obtain ⟨q, hq, hpq⟩ := Option.map_eq_some_iff.mp h
        cases hpq
        exact .inr ⟨p.1, p.2, q.1, rfl, rfl, hlt, hq, rfl⟩
      · rw [many, manyN, hstop, hread] at h
        simp [hlt] at h

theorem many_length {as : List α} {l : List σ} (h : many stop read cs = some (as, l)) :
    l.length ≤ cs.length := by
  induction hn : cs.length using Nat.strongRecOn generalizing cs as with
  | ind n ih =>
    rcases many_eq_some h with ⟨_, _, rfl⟩ | ⟨a, r, bs, _, _, hlt, hrest, _⟩
    · omega
    · have hle := ih r.length (by omega) hrest rfl
      omega

/-! ## Words -/

/-- Whatever admissible rest comes after it, the word is read as these items. -/
def Reads (stop : List σ → Bool) (read : List σ → Option (α × List σ)) (rest : List σ → Prop)
    (cs : List σ) (as : List α) : Prop :=
  ∀ r, rest r → many stop read (cs ++ r) = (many stop read r).map fun q => (as ++ q.1, q.2)

variable {rest rest' : List σ → Prop} {ds : List σ} {as bs : List α}

theorem reads_nil : Reads stop read rest [] [] := by
  intro r _
  rw [List.nil_append]
  cases many stop read r <;> rfl

theorem reads_one (hstop : ∀ r, rest r → stop (cs ++ r) = false)
    (hread : ∀ r, rest r → read (cs ++ r) = some (a, r)) (hne : cs ≠ []) :
    Reads stop read rest cs [a] := by
  intro r hr
  refine (many_read (hstop r hr) (hread r hr) ?_).trans rfl
  rw [List.length_append]
  have hpos := List.length_pos_of_ne_nil hne
  omega

theorem Reads.append (h : Reads stop read rest cs as) (h' : Reads stop read rest' ds bs)
    (hrest : ∀ r, rest' r → rest (ds ++ r)) : Reads stop read rest' (cs ++ ds) (as ++ bs) := by
  intro r hr
  rw [List.append_assoc, h _ (hrest r hr), h' r hr, Option.map_map]
  congr 1
  funext q
  simp

theorem Reads.mono (h : Reads stop read rest cs as) (hrest : ∀ r, rest' r → rest r) :
    Reads stop read rest' cs as := fun r hr => h r (hrest r hr)

theorem Reads.flatMap {encode : α → List σ}
    (h : ∀ a ∈ as, Reads stop read (fun _ => True) (encode a) [a]) :
    Reads stop read (fun _ => True) (as.flatMap encode) as := by
  induction as with
  | nil => exact reads_nil
  | cons a as ih =>
    rw [List.flatMap_cons]
    exact (h a (by simp)).append (ih fun a ha => h a (by simp [ha])) fun _ _ => trivial

end Coding
