import Mathlib.Data.Int.Log
import Mathlib.Data.List.DropRight
import Mathlib.Data.Rat.Floor
import Rekuest.Coding.Words

/-!
# Rekuest.Coding.Figures

Positive numbers in the general format, with six significant digits.

* `significand`: the six digits and the exponent of a number. `significand_bounds`.
* `Layout`: a text in parts, and `layout`: the fixed or the scientific one of a number.
* `general`: the text. `general_eq_iff`: it tells the six digits and the exponent, and no more.
-/

namespace Coding

/-- The nearest integer, of two the even one. -/
def nearest (q : ℚ) : ℤ :=
  if q - ⌊q⌋ < 1 / 2 ∨ q - ⌊q⌋ = 1 / 2 ∧ ⌊q⌋ % 2 = 0 then ⌊q⌋ else ⌊q⌋ + 1

/-- The first six digits of a positive number, rounded, and the exponent of the first. -/
def significand (q : ℚ) : ℕ × ℤ :=
  let k := Int.log 10 q
  let n := (nearest (q * 10 ^ (5 - k))).toNat
  if n = 10 ^ 6 then (10 ^ 5, k + 1) else (n, k)

theorem nearest_bounds (q : ℚ) : ⌊q⌋ ≤ nearest q ∧ nearest q ≤ ⌊q⌋ + 1 := by
  unfold nearest
  split <;> omega

theorem significand_bounds {q : ℚ} (hq : 0 < q) :
    10 ^ 5 ≤ (significand q).1 ∧ (significand q).1 < 10 ^ 6 := by
  have hten : (0 : ℚ) < 10 ^ (5 - Int.log 10 q) := zpow_pos (by norm_num) _
  have hlow : (100000 : ℚ) ≤ q * 10 ^ (5 - Int.log 10 q) := by
    have h := mul_le_mul_of_nonneg_right (Int.zpow_log_le_self (b := 10) (by norm_num) hq) hten.le
    have hexp : Int.log 10 q + (5 - Int.log 10 q) = 5 := by omega
    rw [Nat.cast_ofNat, ← zpow_add₀ (by norm_num), hexp] at h
    norm_num at h
    exact h
  have hhigh : q * 10 ^ (5 - Int.log 10 q) < (1000000 : ℚ) := by
    have h := mul_lt_mul_of_pos_right (Int.lt_zpow_succ_log_self (b := 10) (by norm_num) q) hten
    have hexp : Int.log 10 q + 1 + (5 - Int.log 10 q) = 6 := by omega
    rw [Nat.cast_ofNat, ← zpow_add₀ (by norm_num), hexp] at h
    norm_num at h
    exact h
  have hfloor : (100000 : ℤ) ≤ ⌊q * 10 ^ (5 - Int.log 10 q)⌋ := Int.le_floor.mpr (by
    exact_mod_cast hlow)
  have hceil : ⌊q * 10 ^ (5 - Int.log 10 q)⌋ < (1000000 : ℤ) := Int.floor_lt.mpr (by
    exact_mod_cast hhigh)
  have hnear := nearest_bounds (q * 10 ^ (5 - Int.log 10 q))
  unfold significand
  simp only
  split
  · norm_num
  · rename_i hne
    simp only
    omega

/-! ## Texts in parts -/

def stripZeros (ds : List Char) : List Char := ds.rdropWhile (· = '0')

/-- What stands behind the point, without the zeros at its end. -/
def pointed (fraction : List Char) : List Char :=
  if (stripZeros fraction).isEmpty then [] else '.' :: stripZeros fraction

/-- A sign, and two digits at least. -/
def exponentText (k : ℤ) : List Char :=
  (if k < 0 then '-' else '+') ::
    if k.natAbs < 10 then '0' :: Nat.toDigits 10 k.natAbs else Nat.toDigits 10 k.natAbs

structure Layout where
  whole : List Char
  fraction : List Char
  exponent : Option ℤ

def Layout.text (l : Layout) : List Char :=
  l.whole ++ (pointed l.fraction ++ (l.exponent.map fun k => 'e' :: exponentText k).getD [])

def sixDigits (n : ℕ) : List Char := (List.range 6).map fun i => Nat.digitChar (n / 10 ^ (5 - i) % 10)

def layout (n : ℕ) (k : ℤ) : Layout :=
  if 0 ≤ k ∧ k < 6 then
    ⟨(sixDigits n).take (k.toNat + 1), (sixDigits n).drop (k.toNat + 1), none⟩
  else if -4 ≤ k ∧ k < 0 then
    ⟨['0'], List.replicate (-k - 1).toNat '0' ++ sixDigits n, none⟩
  else ⟨(sixDigits n).take 1, (sixDigits n).drop 1, some k⟩

/-- The format `g`, of a positive number. -/
def general (q : ℚ) : List Char := (layout (significand q).1 (significand q).2).text

/-! ## What the text tells -/

theorem exponentText_inj {k k' : ℤ} (h : exponentText k = exponentText k') : k = k' := by
  have hread : ∀ n : ℕ, Nat.ofDigitChars 10
      (if n < 10 then '0' :: Nat.toDigits 10 n else Nat.toDigits 10 n) 0 = n := by
    intro n
    split
    · rw [Nat.ofDigitChars_cons]
      exact Nat.ofDigitChars_ten_toDigits
    · exact Nat.ofDigitChars_ten_toDigits
  obtain ⟨hsign, hdigits⟩ := List.cons.inj h
  have habs := congrArg (fun ds => Nat.ofDigitChars 10 ds 0) hdigits
  simp only [hread] at habs
  by_cases hk : k < 0 <;> by_cases hk' : k' < 0 <;> simp [hk, hk'] at hsign <;> omega

theorem stripZeros_append (ds : List Char) :
    ∃ j, ds = stripZeros ds ++ List.replicate j '0' := by
  refine ⟨(ds.rtakeWhile (· = '0')).length, ?_⟩
  have hzeros : ds.rtakeWhile (· = '0') = List.replicate (ds.rtakeWhile (· = '0')).length '0' :=
    List.eq_replicate_of_mem fun c hc => by simpa using List.mem_rtakeWhile_imp hc
  rw [← hzeros]
  exact List.rdropWhile_append_rtakeWhile.symm

/-- Digits that are as many, and the same without the zeros at their end. -/
theorem eq_of_stripZeros {ds ds' : List Char} (hlength : ds.length = ds'.length)
    (h : stripZeros ds = stripZeros ds') : ds = ds' := by
  obtain ⟨j, hj⟩ := stripZeros_append ds
  obtain ⟨j', hj'⟩ := stripZeros_append ds'
  have hsame : j = j' := by
    have hl := congrArg List.length hj
    have hl' := congrArg List.length hj'
    simp only [List.length_append, List.length_replicate] at hl hl'
    rw [h] at hl
    omega
  rw [hj, hj', h, hsame]

/-! ## Six digits -/

variable {n n' : ℕ} {k k' : ℤ}

@[simp] theorem length_sixDigits : (sixDigits n).length = 6 := by simp [sixDigits]

theorem isDigit_digitChar {d : ℕ} (h : d < 10) : (Nat.digitChar d).isDigit = true := by
  have hall : ∀ d : Fin 10, (Nat.digitChar d).isDigit = true := by decide
  exact hall ⟨d, h⟩

theorem digitChar_inj {d d' : ℕ} (hd : d < 10) (hd' : d' < 10)
    (h : Nat.digitChar d = Nat.digitChar d') : d = d' := by
  have hall : ∀ d d' : Fin 10, Nat.digitChar d = Nat.digitChar d' → d = d' := by decide
  exact congrArg Fin.val (hall ⟨d, hd⟩ ⟨d', hd'⟩ h)

theorem isDigit_sixDigits {c : Char} (h : c ∈ sixDigits n) : c.isDigit = true := by
  obtain ⟨i, _, rfl⟩ := List.mem_map.mp h
  exact isDigit_digitChar (Nat.mod_lt _ (by norm_num))

theorem sixDigits_inj (hn : n < 10 ^ 6) (hn' : n' < 10 ^ 6) (h : sixDigits n = sixDigits n') :
    n = n' := by
  have hall : ∀ i < 6, n / 10 ^ (5 - i) % 10 = n' / 10 ^ (5 - i) % 10 := by
    intro i hi
    refine digitChar_inj (Nat.mod_lt _ (by norm_num)) (Nat.mod_lt _ (by norm_num)) ?_
    have hget := congrArg (fun ds => ds[i]?) h
    simpa [sixDigits, hi] using hget
  have h0 := hall 0 (by norm_num)
  have h1 := hall 1 (by norm_num)
  have h2 := hall 2 (by norm_num)
  have h3 := hall 3 (by norm_num)
  have h4 := hall 4 (by norm_num)
  have h5 := hall 5 (by norm_num)
  norm_num at *
  omega

/-- The first of six digits is not zero. -/
theorem sixDigits_head (h : 10 ^ 5 ≤ n) (hn : n < 10 ^ 6) :
    ∃ c cs, sixDigits n = c :: cs ∧ c ≠ '0' := by
  refine ⟨_, _, rfl, fun hzero => ?_⟩
  have hfirst : n / 10 ^ (5 - 0) % 10 = 0 :=
    digitChar_inj (Nat.mod_lt _ (by norm_num)) (by norm_num) hzero
  norm_num at *
  omega

/-! ## Layouts -/

theorem isDigit_stripZeros {ds : List Char} (h : ∀ c ∈ ds, c.isDigit = true) :
    ∀ c ∈ stripZeros ds, c.isDigit = true := fun c hc =>
  h c ((List.rdropWhile_prefix _ _).subset hc)

def exponentPart (exponent : Option ℤ) : List Char :=
  (exponent.map fun k => 'e' :: exponentText k).getD []

theorem exponentPart_head {exponent : Option ℤ} : ∀ c ∈ (exponentPart exponent).head?, c = 'e' := by
  cases exponent with
  | none => simp [exponentPart]
  | some k => simp [exponentPart]

theorem exponentPart_inj {e e' : Option ℤ} (h : exponentPart e = exponentPart e') : e = e' := by
  cases e with
  | none =>
    cases e' with
    | none => rfl
    | some k => cases h
  | some k =>
    cases e' with
    | none => cases h
    | some k' => rw [exponentText_inj (List.cons.inj h).2]

/-- The digits behind a point end where the exponent begins. -/
theorem pointed_inj {f f' : List Char} {e e' : Option ℤ} (hf : ∀ c ∈ f, c.isDigit = true)
    (hf' : ∀ c ∈ f', c.isDigit = true)
    (h : pointed f ++ exponentPart e = pointed f' ++ exponentPart e') :
    stripZeros f = stripZeros f' ∧ e = e' := by
  have hstop : ∀ (e : Option ℤ), ∀ c ∈ (exponentPart e).head?, c.isDigit = false := by
    intro e c hc
    rw [exponentPart_head c hc]
    rfl
  have hpoint : ∀ (e : Option ℤ) (cs : List Char), exponentPart e ≠ '.' :: cs := by
    intro e cs heq
    have hc := exponentPart_head '.' (by rw [heq]; rfl)
    cases hc
  unfold pointed at h
  split at h <;> split at h
  · rename_i hnil hnil'
    rw [List.isEmpty_iff.mp hnil, List.isEmpty_iff.mp hnil']
    exact ⟨rfl, exponentPart_inj h⟩
  · exact absurd h (hpoint e _)
  · exact absurd h.symm (hpoint e' _)
  · obtain ⟨hstrip, hexponent⟩ := word_append (p := Char.isDigit) (isDigit_stripZeros hf)
      (isDigit_stripZeros hf') (hstop e) (hstop e') (List.cons.inj h).2
    exact ⟨hstrip, exponentPart_inj hexponent⟩

/-- The parts of a layout are told by its text, but for the zeros at the end. -/
theorem Layout.text_inj {l l' : Layout} (hw : ∀ c ∈ l.whole, c.isDigit = true)
    (hw' : ∀ c ∈ l'.whole, c.isDigit = true) (hf : ∀ c ∈ l.fraction, c.isDigit = true)
    (hf' : ∀ c ∈ l'.fraction, c.isDigit = true) (h : l.text = l'.text) :
    l.whole = l'.whole ∧ stripZeros l.fraction = stripZeros l'.fraction ∧
      l.exponent = l'.exponent := by
  have hstop : ∀ (f : List Char) (e : Option ℤ), ∀ c ∈ (pointed f ++ exponentPart e).head?,
      c.isDigit = false := by
    intro f e c hc
    unfold pointed at hc
    split at hc
    · rw [exponentPart_head c hc]
      rfl
    · cases hc
      rfl
  obtain ⟨hwhole, hrest⟩ := word_append (p := Char.isDigit) hw hw' (hstop l.fraction l.exponent)
    (hstop l'.fraction l'.exponent) h
  exact ⟨hwhole, pointed_inj hf hf' hrest⟩

theorem isDigit_layout : (∀ c ∈ (layout n k).whole, c.isDigit = true) ∧
    ∀ c ∈ (layout n k).fraction, c.isDigit = true := by
  unfold layout
  split
  · exact ⟨fun c hc => isDigit_sixDigits (List.mem_of_mem_take hc),
      fun c hc => isDigit_sixDigits (List.mem_of_mem_drop hc)⟩
  · split
    · refine ⟨by simp, fun c hc => ?_⟩
      rcases List.mem_append.mp hc with hc | hc
      · rw [(List.mem_replicate.mp hc).2]
        rfl
      · exact isDigit_sixDigits hc
    · exact ⟨fun c hc => isDigit_sixDigits (List.mem_of_mem_take hc),
        fun c hc => isDigit_sixDigits (List.mem_of_mem_drop hc)⟩

theorem stripZeros_append_of_mem {xs ys : List Char} {c : Char} (hc : c ∈ ys) (hne : c ≠ '0') :
    stripZeros (xs ++ ys) = xs ++ stripZeros ys := by
  have hkept : (ys.reverse.dropWhile (· = '0')).isEmpty = false := by
    rw [Bool.eq_false_iff, ne_eq, List.isEmpty_iff, List.dropWhile_eq_nil_iff]
    intro hall
    exact hne (of_decide_eq_true (hall c (List.mem_reverse.mpr hc)))
  unfold stripZeros List.rdropWhile
  rw [List.reverse_append, List.dropWhile_append, if_neg (by simp [hkept]), List.reverse_append,
    List.reverse_reverse]

/-- Zeros before a digit that is none are counted. -/
theorem zeros_inj {j j' : ℕ} {c c' : Char} {cs cs' : List Char} (hc : c ≠ '0') (hc' : c' ≠ '0')
    (h : stripZeros (List.replicate j '0' ++ c :: cs) =
      stripZeros (List.replicate j' '0' ++ c' :: cs')) : j = j' := by
  have hcount : ∀ (j : ℕ) (c : Char) (cs : List Char), c ≠ '0' →
      ((stripZeros (List.replicate j '0' ++ c :: cs)).takeWhile (· = '0')).length = j := by
    intro j c cs hc
    have hhead : (stripZeros (c :: cs)).takeWhile (· = '0') = [] := by
      obtain ⟨r, hr⟩ := List.rdropWhile_prefix (p := (· = '0')) (c :: cs)
      cases hstrip : stripZeros (c :: cs) with
      | nil => rfl
      | cons d ds =>
        have hd : d = c := by
          unfold stripZeros at hstrip
          rw [hstrip] at hr
          exact (List.cons.inj hr).1
        simp [hd, hc]
    have hzeros : ∀ d ∈ List.replicate j '0', decide (d = '0') = true := fun d hd =>
      decide_eq_true (List.mem_replicate.mp hd).2
    rw [stripZeros_append_of_mem List.mem_cons_self hc, List.takeWhile_append_of_pos hzeros, hhead]
    simp
  rw [← hcount j c cs hc, h, hcount j' c' cs' hc']

/-- The cases in which a number is laid out. -/
theorem layout_cases (n : ℕ) (k : ℤ) :
    (0 ≤ k ∧ k < 6 ∧ layout n k =
      ⟨(sixDigits n).take (k.toNat + 1), (sixDigits n).drop (k.toNat + 1), none⟩) ∨
    (-4 ≤ k ∧ k < 0 ∧ layout n k = ⟨['0'], List.replicate (-k - 1).toNat '0' ++ sixDigits n, none⟩) ∨
    layout n k = ⟨(sixDigits n).take 1, (sixDigits n).drop 1, some k⟩ := by
  unfold layout
  split
  · rename_i h
    exact .inl ⟨h.1, h.2, rfl⟩
  · split
    · rename_i h
      exact .inr (.inl ⟨h.1, h.2, rfl⟩)
    · exact .inr (.inr rfl)

/-- Digits that are cut at one place, with the zeros at the end taken off. -/
theorem sixDigits_eq_of_cut {i : ℕ} (htake : (sixDigits n).take i = (sixDigits n').take i)
    (hdrop : stripZeros ((sixDigits n).drop i) = stripZeros ((sixDigits n').drop i)) :
    sixDigits n = sixDigits n' := by
  rw [← List.take_append_drop i (sixDigits n), htake, eq_of_stripZeros (by simp) hdrop,
    List.take_append_drop]

theorem layout_inj (h : 10 ^ 5 ≤ n ∧ n < 10 ^ 6) (h' : 10 ^ 5 ≤ n' ∧ n' < 10 ^ 6)
    (htext : (layout n k).text = (layout n' k').text) : n = n' ∧ k = k' := by
  obtain ⟨hwhole, hfraction, hexponent⟩ := Layout.text_inj isDigit_layout.1 isDigit_layout.1
    isDigit_layout.2 isDigit_layout.2 htext
  obtain ⟨c, cs, hn, hc⟩ := sixDigits_head h.1 h.2
  obtain ⟨c', cs', hn', hc'⟩ := sixDigits_head h'.1 h'.2
  rcases layout_cases n k with ⟨hlow, hhigh, hl⟩ | ⟨hlow, hhigh, hl⟩ | hl <;>
    rcases layout_cases n' k' with ⟨hlow', hhigh', hl'⟩ | ⟨hlow', hhigh', hl'⟩ | hl' <;>
    rw [hl, hl'] at hwhole hfraction hexponent
  · have hlength := congrArg List.length hwhole
    simp only [List.length_take, length_sixDigits] at hlength
    have hk : k = k' := by omega
    subst hk
    exact ⟨sixDigits_inj h.2 h'.2 (sixDigits_eq_of_cut hwhole hfraction), rfl⟩
  · rw [hn] at hwhole
    exact absurd (List.cons.inj hwhole).1 hc
  · cases hexponent
  · rw [hn'] at hwhole
    exact absurd (List.cons.inj hwhole).1.symm hc'
  · simp only [hn, hn'] at hfraction
    have hzeros := zeros_inj hc hc' hfraction
    have hk : k = k' := by omega
    subst hk
    rw [stripZeros_append_of_mem List.mem_cons_self hc,
      stripZeros_append_of_mem List.mem_cons_self hc'] at hfraction
    have hstrip := List.append_cancel_left hfraction
    rw [← hn, ← hn'] at hstrip
    exact ⟨sixDigits_inj h.2 h'.2 (eq_of_stripZeros (by simp) hstrip), rfl⟩
  · cases hexponent
  · cases hexponent
  · cases hexponent
  · exact ⟨sixDigits_inj h.2 h'.2 (sixDigits_eq_of_cut hwhole hfraction),
      Option.some.inj hexponent⟩

/-- The text tells the six digits and the exponent, and no more. -/
theorem general_eq_iff {q q' : ℚ} (hq : 0 < q) (hq' : 0 < q') :
    general q = general q' ↔ significand q = significand q' := by
  constructor
  · intro h
    obtain ⟨hn, hk⟩ := layout_inj (significand_bounds hq) (significand_bounds hq') h
    exact Prod.ext hn hk
  · intro h
    rw [general, h, general]

/-- Digits, a point, and an exponent with its sign: no blank. -/
theorem blank_notMem_general (q : ℚ) : ' ' ∉ general q := by
  have hdigit : ∀ c : Char, c.isDigit = true → c ≠ ' ' := by
    rintro c hc rfl
    cases hc
  have hlayout := isDigit_layout (n := (significand q).1) (k := (significand q).2)
  unfold general Layout.text
  rw [List.mem_append, List.mem_append]
  rintro (h | h | h)
  · exact hdigit ' ' (hlayout.1 _ h) rfl
  · unfold pointed at h
    split at h
    · cases h
    · rcases List.mem_cons.mp h with h | h
      · cases h
      · exact hdigit ' ' (isDigit_stripZeros hlayout.2 _ h) rfl
  · cases hexponent : (layout (significand q).1 (significand q).2).exponent with
    | none =>
      rw [hexponent] at h
      cases h
    | some k =>
      have hdigits : ∀ c ∈ Nat.toDigits 10 k.natAbs, c ≠ ' ' := fun c hc =>
        hdigit c (Nat.isDigit_of_mem_toDigits (by decide) (by decide) hc)
      rw [hexponent, Option.map_some, Option.getD_some, exponentText] at h
      rcases List.mem_cons.mp h with h | h
      · cases h
      · rcases List.mem_cons.mp h with h | h
        · split at h <;> cases h
        · split at h
          · rcases List.mem_cons.mp h with h | h
            · cases h
            · exact hdigits ' ' h rfl
          · exact hdigits ' ' h rfl

end Coding
