import Mathlib.Logic.Function.Basic
import Mathlib.Data.List.Nodup

/-!
# Rekuest.Coding.Cuts

Where a marked text can be cut, and lists that are put together from free choices.

* `cuts c l`: what stands before each mark `c` of `l`. `mem_cuts`, `cuts_append`, `cuts_nodup`.
  `map_take_splitOn`: they are the joined first parts of the split text.
* `forced_of_choices`: a list that is put together from one choice at each place, and comes out
  the same whatever is chosen, leaves no choice.
-/

namespace Coding

section Cuts

variable {σ : Type} [DecidableEq σ] {c x : σ} {l p q k : List σ}

/-- What stands before each mark. -/
def cuts (c : σ) : List σ → List (List σ)
  | [] => []
  | x :: xs => (if x = c then [[]] else []) ++ (cuts c xs).map (x :: ·)

theorem mem_cuts : q ∈ cuts c l ↔ ∃ r, l = q ++ c :: r := by
  induction l generalizing q with
  | nil => simp [cuts]
  | cons x xs ih =>
    rw [cuts, List.mem_append, List.mem_map]
    constructor
    · rintro (h | ⟨q', hq', rfl⟩)
      · split at h
        · rename_i hx
          rw [List.mem_singleton.mp h, hx]
          exact ⟨xs, rfl⟩
        · cases h
      · obtain ⟨r, hr⟩ := ih.mp hq'
        exact ⟨r, by rw [hr]; rfl⟩
    · rintro ⟨r, hr⟩
      cases q with
      | nil =>
        obtain ⟨rfl, rfl⟩ := List.cons.inj hr
        simp
      | cons y q =>
        obtain ⟨rfl, hxs⟩ := List.cons.inj hr
        exact .inr ⟨q, ih.mpr ⟨r, hxs⟩, rfl⟩

theorem cuts_append : cuts c (p ++ c :: k) = cuts c p ++ p :: (cuts c k).map (p ++ c :: ·) := by
  induction p with
  | nil => simp [cuts]
  | cons x xs ih =>
    rw [List.cons_append, cuts, ih, cuts]
    simp

theorem cuts_nodup : (cuts c l).Nodup := by
  induction l with
  | nil => exact List.nodup_nil
  | cons x xs ih =>
    have hrest : ((cuts c xs).map (x :: ·)).Nodup := ih.map List.cons_injective
    rw [cuts]
    split
    · rw [List.singleton_append, List.nodup_cons]
      exact ⟨by simp, hrest⟩
    · exact hrest

omit [DecidableEq σ] in
theorem intercalate_cons_head (x : σ) (w : List σ) (ws : List (List σ)) :
    [c].intercalate ((x :: w) :: ws) = x :: [c].intercalate (w :: ws) := by
  cases ws <;> simp [List.intercalate]

/-- The joined first parts of the split text are the text before each mark. -/
theorem map_take_splitOn : (List.range ((l.splitOn c).length - 1)).map
    (fun depth => [c].intercalate ((l.splitOn c).take (depth + 1))) = cuts c l := by
  induction l with
  | nil => rfl
  | cons x xs ih =>
    obtain ⟨w, ws, hsplit⟩ := List.exists_cons_of_ne_nil (List.splitOn_ne_nil c xs)
    rw [cuts, ← ih, List.splitOn_cons_eq_if_modifyHead, hsplit]
    by_cases hx : x = c
    · rw [if_pos (beq_iff_eq.mpr hx), if_pos hx]
      simp only [List.length_cons, Nat.add_sub_cancel, List.range_succ_eq_map, List.map_cons,
        List.map_map]
      simp [Function.comp_def, hx]
    · rw [if_neg (by simpa using hx), if_neg hx, List.nil_append]
      simp only [List.modifyHead_cons, List.length_cons, Nat.add_sub_cancel, List.map_map,
        List.take_succ_cons, Function.comp_def, intercalate_cons_head]

end Cuts

/-! ## Choices -/

section Choices

variable {κ β : Type} {V : κ → List β → Prop} {L : List (κ × List β)} {e : κ × List β}

/-- Of two lists in which nothing is shorter, the one that is as long has equal lengths all over. -/
theorem length_eq_of_flatMap_eq {v : κ → List β} (hle : ∀ e ∈ L, e.2.length ≤ (v e.1).length)
    (h : (L.flatMap fun e => v e.1) = L.flatMap Prod.snd) (he : e ∈ L) :
    (v e.1).length = e.2.length := by
  have hsum := congrArg List.length h
  clear h
  induction L with
  | nil => cases he
  | cons first rest ih =>
    have hrest : (rest.flatMap Prod.snd).length ≤ (rest.flatMap fun e => v e.1).length := by
      clear ih hsum he
      induction rest with
      | nil => simp
      | cons e rest ih =>
        have hhead := hle e (by simp)
        have htail := ih fun e he => hle e (by
          rcases List.mem_cons.mp he with rfl | he <;> simp [*])
        simp only [List.flatMap_cons, List.length_append]
        omega
    have hfirst := hle first List.mem_cons_self
    simp only [List.flatMap_cons, List.length_append] at hsum
    rcases List.mem_cons.mp he with rfl | he
    · omega
    · exact ih (fun e he => hle e (List.mem_cons_of_mem _ he)) he (by omega)

theorem flatMap_update [DecidableEq κ] {v : κ → List β} {m : List β}
    (hnodup : (L.map Prod.fst).Nodup) (he : e ∈ L)
    (h : (L.flatMap fun e' => Function.update v e.1 m e'.1) = L.flatMap fun e' => v e'.1) :
    m = v e.1 := by
  induction L with
  | nil => cases he
  | cons first rest ih =>
    rw [List.map_cons, List.nodup_cons] at hnodup
    simp only [List.flatMap_cons] at h
    rcases List.mem_cons.mp he with rfl | he
    · have hrest : (rest.flatMap fun e' => Function.update v e.1 m e'.1) =
          rest.flatMap fun e' => v e'.1 := by
        refine List.flatMap_congr fun e' he' => ?_
        refine Function.update_of_ne (fun hk => hnodup.1 ?_) _ _
        rw [← hk]
        exact List.mem_map_of_mem he'
      rw [hrest, Function.update_self] at h
      exact List.append_cancel_right h
    · have hne : first.1 ≠ e.1 := fun hk => hnodup.1 (by rw [hk]; exact List.mem_map_of_mem he)
      rw [Function.update_of_ne hne] at h
      exact ih hnodup.2 he (List.append_cancel_left h)

/-- Whatever is chosen, the same list comes out: then what stands at each place is the only
choice there, if it is a choice, or is empty. -/
theorem forced_of_choices (hnodup : (L.map Prod.fst).Nodup) (hex : ∀ k, ∃ m, V k m)
    (hown : ∀ e ∈ L, e.2 = [] ∨ V e.1 e.2)
    (hall : ∀ v : κ → List β, (∀ k, V k (v k)) →
      (L.flatMap fun e => v e.1) = L.flatMap Prod.snd) :
    ∀ e ∈ L, ∀ m, V e.1 m → m = e.2 := by
  classical
  -- the choice that follows the list wherever it can
  let follow : κ → List β := fun k =>
    if h : ∃ m, (k, m) ∈ L ∧ V k m then h.choose else (hex k).choose
  have hfollow : ∀ k, V k (follow k) := by
    intro k
    by_cases h : ∃ m, (k, m) ∈ L ∧ V k m
    · simp only [follow, dif_pos h]
      exact h.choose_spec.2
    · simp only [follow, dif_neg h]
      exact (hex k).choose_spec
  have hle : ∀ e ∈ L, e.2.length ≤ (follow e.1).length := by
    intro e he
    rcases hown e he with hnil | hv
    · rw [hnil]
      exact Nat.zero_le _
    · have h : ∃ m, (e.1, m) ∈ L ∧ V e.1 m := ⟨e.2, he, hv⟩
      have hsame : (e.1, h.choose) = e :=
        List.inj_on_of_nodup_map hnodup h.choose_spec.1 he rfl
      simp only [follow, dif_pos h]
      exact Nat.le_of_eq (congrArg (fun p => p.2.length) hsame).symm
  have hsame := hall follow hfollow
  have hfollows : ∀ e ∈ L, follow e.1 = e.2 := by
    intro e he
    rcases hown e he with hnil | hv
    · have hlength := length_eq_of_flatMap_eq hle hsame he
      rw [hnil] at hlength ⊢
      exact List.length_eq_zero_iff.mp hlength
    · have h : ∃ m, (e.1, m) ∈ L ∧ V e.1 m := ⟨e.2, he, hv⟩
      have hpair : (e.1, h.choose) = e :=
        List.inj_on_of_nodup_map hnodup h.choose_spec.1 he rfl
      simp only [follow, dif_pos h]
      exact congrArg Prod.snd hpair
  intro e he m hm
  rw [← hfollows e he]
  refine flatMap_update hnodup he ?_
  rw [hsame]
  refine hall _ fun k => ?_
  by_cases hk : k = e.1
  · subst hk
    rw [Function.update_self]
    exact hm
  · rw [Function.update_of_ne hk]
    exact hfollow k

end Choices
end Coding
