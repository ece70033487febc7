import Mathlib.Data.String.Basic
import Rekuest.Units

/-!
# Rekuest.Units.Rendering

What the text of a dimensionality tells.

* `seen`: of an item its dimension, its sign, and six digits of its exponent, unless this is one.
* `render_eq_iff`: the text tells what is seen of the items, and no more.
* `canonical_iff`: it tells the map exactly from those maps of which something else is seen, and so
  do the dimension keys of quantity ports.
-/

namespace Rekuest
namespace Units

open Coding

/-- What is seen of an item. -/
def seen (e : String × ℚ) : String × Bool × Option (ℕ × ℤ) :=
  (e.1, decide (0 < e.2), if |e.2| = 1 then none else some (significand |e.2|))

/-- The same is seen of the items of both, in some order. -/
def Alike (m m' : Dimensionality) : Prop := (m.items.map seen).Perm (m'.items.map seen)

/-! ## Terms -/

theorem term_eq_iff {e e' : String × ℚ} (he : e.2 ≠ 0) (he' : e'.2 ≠ 0) :
    (|e.2| = 1 ↔ |e'.2| = 1) ∧ (|e.2| ≠ 1 → general |e.2| = general |e'.2|) ↔
      (seen e).2.2 = (seen e').2.2 := by
  have hpos : 0 < |e.2| := abs_pos.mpr he
  have hpos' : 0 < |e'.2| := abs_pos.mpr he'
  simp only [seen]
  by_cases h : |e.2| = 1 <;> by_cases h' : |e'.2| = 1 <;> simp [h, h', general_eq_iff hpos hpos']

/-- What may follow a term: nothing, or a blank and an operator that is not a power. -/
def Stop (r : List Char) : Prop := r = [] ∨ ∃ s, r = " * ".toList ++ s ∨ r = " / ".toList ++ s

theorem Stop.head {r : List Char} (h : Stop r) : ∀ c ∈ r.head?, (c != ' ') = false := by
  rcases h with rfl | ⟨s, rfl | rfl⟩ <;> simp

theorem not_stop_power {r : List Char} : ¬ Stop (" ** ".toList ++ r) := by
  rintro (h | ⟨s, h | h⟩)
  · cases h
  · cases h
  · cases h

theorem no_blank {cs : List Char} (h : ' ' ∉ cs) : ∀ c ∈ cs, (c != ' ') = true := by
  intro c hc
  rw [bne_iff_ne]
  rintro rfl
  exact h hc

/-- A term is told before what may follow it, as far as it is seen. -/
theorem term_append {e e' : String × ℚ} {r r' : List Char} (hname : ' ' ∉ e.1.toList)
    (hname' : ' ' ∉ e'.1.toList) (he : e.2 ≠ 0) (he' : e'.2 ≠ 0) (hr : Stop r) (hr' : Stop r')
    (h : term e ++ r = term e' ++ r') :
    (e.1 = e'.1 ∧ (seen e).2.2 = (seen e').2.2) ∧ r = r' := by
  rw [← term_eq_iff he he']
  have hpower : ∀ s : List Char, ∀ c ∈ (" ** ".toList ++ s).head?, (c != ' ') = false := by simp
  unfold term at h
  split at h <;> split at h
  · rename_i hone hone'
    obtain ⟨hkey, hrest⟩ := word_append (no_blank hname) (no_blank hname') hr.head hr'.head h
    exact ⟨⟨String.toList_injective hkey, by simp [hone, hone']⟩, hrest⟩
  · rw [List.append_assoc, List.append_assoc] at h
    obtain ⟨_, hrest⟩ := word_append (no_blank hname) (no_blank hname') hr.head (hpower _) h
    rw [hrest] at hr
    exact absurd hr not_stop_power
  · rw [List.append_assoc, List.append_assoc] at h
    obtain ⟨_, hrest⟩ := word_append (no_blank hname) (no_blank hname') (hpower _) hr'.head h
    rw [← hrest] at hr'
    exact absurd hr' not_stop_power
  · rename_i hne hne'
    rw [List.append_assoc, List.append_assoc, List.append_assoc, List.append_assoc] at h
    obtain ⟨hkey, hrest⟩ := word_append (no_blank hname) (no_blank hname') (hpower _) (hpower _) h
    obtain ⟨hgeneral, hrest⟩ := word_append (no_blank (blank_notMem_general _))
      (no_blank (blank_notMem_general _)) hr.head hr'.head (List.append_cancel_left hrest)
    exact ⟨⟨String.toList_injective hkey, by simp [hne, hne', hgeneral]⟩, hrest⟩

/-! ## Fractions -/

/-- What is seen of an item whose sign is known. -/
def look (e : String × ℚ) : String × Option (ℕ × ℤ) := (e.1, (seen e).2.2)

def terms (op : String) (es : List (String × ℚ)) : List Char :=
  es.flatMap fun e => op.toList ++ term e

def numerator : List (String × ℚ) → List Char
  | [] => ['1']
  | e :: es => term e ++ terms " * " es

def WellNamed (es : List (String × ℚ)) : Prop := ∀ e ∈ es, IsDimension e.1 ∧ e.2 ≠ 0

theorem stop_terms {op : String} {es : List (String × ℚ)} {r : List Char}
    (hop : ∀ s, Stop (op.toList ++ s)) (hr : Stop r) : Stop (terms op es ++ r) := by
  cases es with
  | nil => exact hr
  | cons e es =>
    rw [terms, List.flatMap_cons, List.append_assoc, List.append_assoc]
    exact hop _

/-- Terms behind one operator are told before what does not begin with it. -/
theorem terms_append {op : String} {es es' : List (String × ℚ)} {r r' : List Char}
    (hop : ∀ s, Stop (op.toList ++ s)) (hes : WellNamed es) (hes' : WellNamed es') (hr : Stop r)
    (hr' : Stop r') (hend : ∀ s, r ≠ op.toList ++ s) (hend' : ∀ s, r' ≠ op.toList ++ s)
    (h : terms op es ++ r = terms op es' ++ r') : es.map look = es'.map look ∧ r = r' := by
  induction es generalizing es' with
  | nil =>
    cases es' with
    | nil => exact ⟨rfl, h⟩
    | cons e' es' =>
      rw [terms, List.flatMap_nil, List.nil_append, terms, List.flatMap_cons, List.append_assoc,
        List.append_assoc] at h
      exact absurd h (hend _)
  | cons e es ih =>
    cases es' with
    | nil =>
      rw [terms, List.flatMap_cons, List.append_assoc, List.append_assoc, terms, List.flatMap_nil,
        List.nil_append] at h
      exact absurd h.symm (hend' _)
    | cons e' es' =>
      have hstop : Stop (terms op es ++ r) := stop_terms hop hr
      have hstop' : Stop (terms op es' ++ r') := stop_terms hop hr'
      unfold terms at h hstop hstop'
      rw [List.flatMap_cons, List.flatMap_cons, List.append_assoc, List.append_assoc,
        List.append_assoc, List.append_assoc] at h
      obtain ⟨hhead, hrest⟩ := term_append (hes e List.mem_cons_self).1.2.2
        (hes' e' List.mem_cons_self).1.2.2 (hes e List.mem_cons_self).2
        (hes' e' List.mem_cons_self).2 hstop hstop' (List.append_cancel_left h)
      obtain ⟨htail, hr⟩ := ih (fun e he => hes e (List.mem_cons_of_mem _ he))
        (fun e he => hes' e (List.mem_cons_of_mem _ he)) hrest
      refine ⟨?_, hr⟩
      rw [List.map_cons, List.map_cons, htail]
      exact congrArg (· :: _) (Prod.ext hhead.1 hhead.2)

theorem stop_times (s : List Char) : Stop (" * ".toList ++ s) := .inr ⟨s, .inl rfl⟩

theorem stop_over (s : List Char) : Stop (" / ".toList ++ s) := .inr ⟨s, .inr rfl⟩

theorem term_head {e : String × ℚ} {r : List Char} (h : IsDimension e.1) :
    (term e ++ r).head? = some '[' := by
  have hne : e.1.toList ≠ [] := by
    intro hnil
    have hhead := h.1
    rw [hnil] at hhead
    cases hhead
  unfold term
  split
  · rw [List.head?_append_of_ne_nil _ hne, h.1]
  · rw [List.append_assoc, List.head?_append_of_ne_nil _ hne, h.1]

/-- A fraction is told. -/
theorem fraction_inj {P P' N N' : List (String × ℚ)} (hP : WellNamed P) (hP' : WellNamed P')
    (hN : WellNamed N) (hN' : WellNamed N')
    (h : numerator P ++ terms " / " N = numerator P' ++ terms " / " N') :
    P.map look = P'.map look ∧ N.map look = N'.map look := by
  have hend : ∀ N : List (String × ℚ), ∀ s, terms " / " N ≠ " * ".toList ++ s := by
    intro N s heq
    cases N with
    | nil => cases heq
    | cons e es => cases heq
  have hdenominator : terms " / " N = terms " / " N' → N.map look = N'.map look := by
    intro heq
    have hend : ∀ s, ([] : List Char) ≠ " / ".toList ++ s := by
      intro s hs
      cases hs
    exact (terms_append stop_over hN hN' (.inl rfl) (.inl rfl) hend hend
      (congrArg (· ++ []) heq)).1
  cases P with
  | nil =>
    cases P' with
    | nil => exact ⟨rfl, hdenominator (List.append_cancel_left h)⟩
    | cons e' es' =>
      have hhead := congrArg List.head? h
      rw [numerator, numerator, List.append_assoc, term_head (hP' e' List.mem_cons_self).1] at hhead
      cases hhead
  | cons e es =>
    cases P' with
    | nil =>
      have hhead := congrArg List.head? h
      rw [numerator, numerator, List.append_assoc, term_head (hP e List.mem_cons_self).1] at hhead
      cases hhead
    | cons e' es' =>
      have hstop : ∀ N, Stop (terms " / " N) := by
        intro N
        have hs : Stop (terms " / " N ++ []) := stop_terms stop_over (.inl rfl)
        rwa [List.append_nil] at hs
      rw [numerator, numerator, List.append_assoc, List.append_assoc] at h
      obtain ⟨hhead, hrest⟩ := term_append (hP e List.mem_cons_self).1.2.2
        (hP' e' List.mem_cons_self).1.2.2 (hP e List.mem_cons_self).2
        (hP' e' List.mem_cons_self).2 (stop_terms stop_times (hstop N))
        (stop_terms stop_times (hstop N')) h
      obtain ⟨htail, hover⟩ := terms_append stop_times
        (fun e he => hP e (List.mem_cons_of_mem _ he))
        (fun e he => hP' e (List.mem_cons_of_mem _ he)) (hstop N) (hstop N') (hend N) (hend N') hrest
      refine ⟨?_, hdenominator hover⟩
      rw [List.map_cons, List.map_cons, htail]
      exact congrArg (· :: _) (Prod.ext hhead.1 hhead.2)

/-- A term shows what is seen of the item. -/
theorem term_eq_of_look {e e' : String × ℚ} (h : look e = look e') : term e = term e' := by
  obtain ⟨hname, hseen⟩ := Prod.mk.inj h
  simp only [seen] at hseen
  unfold term
  split at hseen <;> split at hseen
  · rename_i hone hone'
    rw [if_pos hone, if_pos hone', hname]
  · cases hseen
  · cases hseen
  · rename_i hne hne'
    rw [if_neg hne, if_neg hne', hname, general, Option.some.inj hseen, general]

theorem terms_eq_of_look {op : String} {es es' : List (String × ℚ)}
    (h : es.map look = es'.map look) : terms op es = terms op es' := by
  induction es generalizing es' with
  | nil =>
    cases es' with
    | nil => rfl
    | cons e' es' => cases h
  | cons e es ih =>
    cases es' with
    | nil => cases h
    | cons e' es' =>
      obtain ⟨hhead, htail⟩ := List.cons.inj h
      have hrest := ih htail
      unfold terms at hrest ⊢
      rw [List.flatMap_cons, List.flatMap_cons, term_eq_of_look hhead, hrest]

/-! ## The text -/

theorem intercalate_terms (e : String × ℚ) (es : List (String × ℚ)) :
    " * ".toList.intercalate ((e :: es).map term) = numerator (e :: es) := by
  induction es generalizing e with
  | nil => simp [numerator, terms]
  | cons e' es ih =>
    have hrest := ih e'
    rw [List.map_cons] at hrest
    rw [List.map_cons, List.map_cons, List.intercalate_cons_cons, hrest]
    simp [numerator, terms]

theorem foldl_terms (start : List Char) (es : List (String × ℚ)) :
    es.foldl (fun rendered e => rendered ++ " / ".toList ++ term e) start =
      start ++ terms " / " es := by
  induction es generalizing start with
  | nil => exact (List.append_nil _).symm
  | cons e es ih =>
    rw [List.foldl_cons, ih, terms, terms, List.flatMap_cons]
    simp

/-- The text is the sentinel of a map without dimensions, or a fraction. -/
theorem render_toList (dims : List (String × ℚ)) : (renderDimensionality dims).toList =
    if (positive dims).isEmpty && (negative dims).isEmpty then "dimensionless".toList
    else numerator (positive dims) ++ terms " / " (negative dims) := by
  unfold renderDimensionality
  split
  · rfl
  · simp only [String.toList_ofList, foldl_terms]
    cases hpos : positive dims with
    | nil => rfl
    | cons e es => rw [List.isEmpty_cons, if_neg (by simp), intercalate_terms]

/-! ## Sorting -/

instance : Std.Total before where
  total a b := by
    unfold before
    rcases lt_trichotomy a.1 b.1 with h | h | h
    · exact .inl (.inl h)
    · rcases le_total a.2 b.2 with h' | h'
      · exact .inl (.inr ⟨h, h'⟩)
      · exact .inr (.inr ⟨h.symm, h'⟩)
    · exact .inr (.inl h)

instance : IsTrans (String × ℚ) before where
  trans a b c hab hbc := by
    unfold before at *
    rcases hab with hab | ⟨hab, hle⟩
    · rcases hbc with hbc | ⟨hbc, _⟩
      · exact .inl (hab.trans hbc)
      · exact .inl (hbc ▸ hab)
    · rcases hbc with hbc | ⟨hbc, hle'⟩
      · exact .inl (hab ▸ hbc)
      · exact .inr ⟨hab.trans hbc, hle.trans hle'⟩

variable (m m' : Dimensionality)

theorem perm_positive : (positive m.items).Perm (m.items.filter fun e => 0 < e.2) :=
  List.perm_insertionSort _ _

theorem perm_negative : (negative m.items).Perm (m.items.filter fun e => e.2 < 0) :=
  List.perm_insertionSort _ _

/-- Sorted items of distinct dimensions stand in the order of these. -/
theorem sorted_filter (p : String × ℚ → Bool) :
    ((m.items.filter p).insertionSort before).Pairwise fun a b => a.1 < b.1 := by
  have hsorted := List.pairwise_insertionSort before (m.items.filter p)
  have hdistinct : ((m.items.filter p).map Prod.fst).Nodup :=
    m.distinct.sublist (List.filter_sublist.map _)
  have hkeys : (((m.items.filter p).insertionSort before).map Prod.fst).Nodup :=
    ((List.perm_insertionSort _ _).map _).nodup_iff.mpr hdistinct
  refine (hsorted.and (List.pairwise_map.mp hkeys)).imp ?_
  rintro a b ⟨hlt | ⟨heq, _⟩, hne⟩
  · exact hlt
  · exact absurd heq hne

theorem wellNamed_positive : WellNamed (positive m.items) := fun e he => by
  have hmem := List.mem_of_mem_filter ((perm_positive m).mem_iff.mp he)
  exact ⟨m.named e hmem, m.nonzero e hmem⟩

theorem wellNamed_negative : WellNamed (negative m.items) := fun e he => by
  have hmem := List.mem_of_mem_filter ((perm_negative m).mem_iff.mp he)
  exact ⟨m.named e hmem, m.nonzero e hmem⟩

/-- No exponent is zero. -/
theorem filter_negative : (m.items.filter fun e => e.2 < 0) =
    m.items.filter fun e => !decide (0 < e.2) := by
  refine List.filter_congr fun e he => ?_
  rcases lt_trichotomy e.2 0 with h | h | h
  · simp [h, h.le]
  · exact absurd h (m.nonzero e he)
  · simp [h, h.le]

/-- The items, those with a positive exponent first. -/
theorem perm_items : (positive m.items ++ negative m.items).Perm m.items := by
  refine ((perm_positive m).append (perm_negative m)).trans ?_
  rw [filter_negative]
  exact List.filter_append_perm _ _

/-- Of items of one sign all is seen where the sign is known. -/
theorem map_seen {es : List (String × ℚ)} {b : Bool} (h : ∀ e ∈ es, decide (0 < e.2) = b) :
    es.map seen = (es.map look).map fun l => (l.1, b, l.2) := by
  rw [List.map_map]
  refine List.map_congr_left fun e he => ?_
  show seen e = (e.1, b, (seen e).2.2)
  rw [← h e he]
  rfl

theorem map_look (es : List (String × ℚ)) :
    es.map look = (es.map seen).map fun s => (s.1, s.2.2) := by
  rw [List.map_map]
  rfl

variable {m m'}

/-- Items of distinct dimensions of which the same is seen are looked at in one order. -/
theorem look_eq_of_perm {p p' : String × ℚ → Bool}
    (h : ((m.items.filter p).map seen).Perm ((m'.items.filter p').map seen)) :
    ((m.items.filter p).insertionSort before).map look =
      ((m'.items.filter p').insertionSort before).map look := by
  have hlook : ((m.items.filter p).map look).Perm ((m'.items.filter p').map look) := by
    rw [map_look, map_look (m'.items.filter p')]
    exact h.map _
  have hperm := ((List.perm_insertionSort before (m.items.filter p)).map look).trans
    (hlook.trans ((List.perm_insertionSort before (m'.items.filter p')).map look).symm)
  have hpairwise : ∀ (m : Dimensionality) p, List.Pairwise (fun a b => a.1 < b.1)
      (((m.items.filter p).insertionSort before).map look) := fun m p =>
    List.pairwise_map.mpr (sorted_filter m p)
  refine List.Perm.eq_of_pairwise (fun a b _ _ hab hba => ?_) (hpairwise m p) (hpairwise m' p') hperm
  exact absurd hab (lt_asymm hba)

theorem look_eq_iff : Alike m m' ↔ (positive m.items).map look = (positive m'.items).map look ∧
    (negative m.items).map look = (negative m'.items).map look := by
  constructor
  · intro h
    have hsign : ∀ (b : Bool) (m : Dimensionality),
        (m.items.filter fun e => decide (0 < e.2) == b).map seen =
          (m.items.map seen).filter fun s => s.2.1 == b := by
      intro b m
      rw [List.filter_map]
      rfl
    constructor
    · refine look_eq_of_perm ?_
      have hperm := h.filter fun s => s.2.1 == true
      rw [← hsign, ← hsign] at hperm
      simpa using hperm
    · unfold negative
      rw [filter_negative, filter_negative]
      refine look_eq_of_perm ?_
      have hperm := h.filter fun s => s.2.1 == false
      rw [← hsign, ← hsign] at hperm
      simpa using hperm
  · rintro ⟨hpositive, hnegative⟩
    have hpos : ∀ (m : Dimensionality), ∀ e ∈ positive m.items, decide (0 < e.2) = true :=
      fun m e he => (List.mem_filter.mp ((perm_positive m).mem_iff.mp he)).2
    have hneg : ∀ (m : Dimensionality), ∀ e ∈ negative m.items, decide (0 < e.2) = false := by
      intro m e he
      have hlt := of_decide_eq_true (List.mem_filter.mp ((perm_negative m).mem_iff.mp he)).2
      exact decide_eq_false (not_lt.mpr hlt.le)
    have hboth : (positive m.items ++ negative m.items).map seen =
        (positive m'.items ++ negative m'.items).map seen := by
      rw [List.map_append, List.map_append, map_seen (hpos m), map_seen (hneg m),
        map_seen (hpos m'), map_seen (hneg m'), hpositive, hnegative]
    have hperm := ((perm_items m).map seen).symm
    rw [hboth] at hperm
    exact hperm.trans ((perm_items m').map seen)

theorem fraction_head {P : List (String × ℚ)} (hP : WellNamed P) (r : List Char) :
    numerator P ++ r ≠ "dimensionless".toList := by
  intro h
  have hhead := congrArg List.head? h
  cases P with
  | nil => cases hhead
  | cons e es =>
    rw [numerator, List.append_assoc, term_head (hP e List.mem_cons_self).1] at hhead
    cases hhead

theorem numerator_eq_of_look {P P' : List (String × ℚ)} (h : P.map look = P'.map look) :
    numerator P = numerator P' := by
  cases P with
  | nil =>
    cases P' with
    | nil => rfl
    | cons e' es' => cases h
  | cons e es =>
    cases P' with
    | nil => cases h
    | cons e' es' =>
      obtain ⟨hhead, htail⟩ := List.cons.inj h
      rw [numerator, numerator, term_eq_of_look hhead, terms_eq_of_look htail]

theorem isEmpty_eq_of_look {P P' : List (String × ℚ)} (h : P.map look = P'.map look) :
    P.isEmpty = P'.isEmpty := by
  rw [← List.isEmpty_map (f := look), h, List.isEmpty_map]

/-- The text tells what is seen of the items, and no more. -/
theorem render_eq_iff : renderDimensionality m.items = renderDimensionality m'.items ↔
    Alike m m' := by
  rw [look_eq_iff, ← String.toList_inj, render_toList, render_toList]
  constructor
  · intro h
    split at h <;> split at h
    · rename_i hempty hempty'
      rw [Bool.and_eq_true, List.isEmpty_iff, List.isEmpty_iff] at hempty hempty'
      rw [hempty.1, hempty.2, hempty'.1, hempty'.2]
      exact ⟨rfl, rfl⟩
    · exact absurd h.symm (fraction_head (wellNamed_positive m') _)
    · exact absurd h (fraction_head (wellNamed_positive m) _)
    · exact fraction_inj (wellNamed_positive m) (wellNamed_positive m') (wellNamed_negative m)
        (wellNamed_negative m') h
  · rintro ⟨hpositive, hnegative⟩
    rw [isEmpty_eq_of_look hpositive, isEmpty_eq_of_look hnegative, numerator_eq_of_look hpositive,
      terms_eq_of_look hnegative]

/-! ## Dimension keys -/

/-- The same map, in whatever order the items come. -/
def SameMap (m m' : Dimensionality) : Prop := m.items.Perm m'.items

variable (pint : String → Except String Dimensionality)

/-- A quantity port whose unit has this dimensionality is accepted with this dimension. -/
def DimensionKey (m : Dimensionality) (key : String) : Prop :=
  ∃ port checked unit, port.kind = .quantity ∧ port.referenceUnit = some unit ∧
    getDimensionality pint unit = .ok m ∧ checkKindSpecificFields pint port = .ok checked ∧
    checked.dimension = some key

/-- The texts of the maps, and the dimensions of ports, are equal exactly when the maps are. -/
def Canonical (m m' : Dimensionality) : Prop :=
  (renderDimensionality m.items = renderDimensionality m'.items ↔ SameMap m m') ∧
    ∀ key key', DimensionKey pint m key → DimensionKey pint m' key' →
      (key = key' ↔ SameMap m m')

/-- The validation derives the dimension of a quantity. -/
theorem eq_render_of_dimensionKey {pint : String → Except String Dimensionality} {key : String}
    (h : DimensionKey pint m key) : key = renderDimensionality m.items := by
  obtain ⟨port, checked, unit, hkind, hunit, hdims, hchecked, hkey⟩ := h
  have hderived : dimensionalityOf pint unit = .ok (renderDimensionality m.items) := by
    rw [dimensionalityOf, hdims]
    rfl
  unfold checkKindSpecificFields at hchecked
  obtain ⟨_, _, hchecked⟩ := Fallible.bind_ok_iff.mp hchecked
  rw [if_pos hkind, hunit] at hchecked
  by_cases hempty : unit = ""
  · rw [hempty] at hchecked
    cases hchecked
  · rw [Option.filter_some, if_pos (by simpa using hempty)] at hchecked
    obtain ⟨derived, hd, hchecked⟩ := Fallible.bind_ok_iff.mp hchecked
    obtain ⟨_, _, hchecked⟩ := Fallible.bind_ok_iff.mp hchecked
    obtain ⟨_, _, hchecked⟩ := Fallible.bind_ok_iff.mp hchecked
    cases hchecked
    rw [hderived] at hd
    cases hd
    exact (Option.some.inj hkey).symm

/-- The text tells a map from those of which something else is seen. -/
theorem canonical_iff (m m' : Dimensionality) :
    Canonical pint m m' ↔ SameMap m m' ∨ ¬ Alike m m' := by
  have halike : SameMap m m' → Alike m m' := fun h => h.map seen
  constructor
  · rintro ⟨h, _⟩
    by_cases hsame : SameMap m m'
    · exact .inl hsame
    · exact .inr fun hlike => hsame (h.mp (render_eq_iff.mpr hlike))
  · intro h
    have hrender : renderDimensionality m.items = renderDimensionality m'.items ↔ SameMap m m' := by
      rw [render_eq_iff]
      exact ⟨fun hlike => h.resolve_right (not_not.mpr hlike), halike⟩
    refine ⟨hrender, fun key key' hkey hkey' => ?_⟩
    rw [eq_render_of_dimensionKey hkey, eq_render_of_dimensionKey hkey']
    exact hrender

/-- A length to this power. -/
def lengthTo (exponent : ℚ) (h : exponent ≠ 0) : Dimensionality where
  items := [("[length]", exponent)]
  distinct := List.nodup_singleton _
  nonzero e he := by
    rw [List.mem_singleton.mp he]
    exact h
  named e he := by
    rw [List.mem_singleton.mp he]
    show "[length]".toList.head? = some '[' ∧ "[length]".toList.getLast? = some ']' ∧
      ' ' ∉ "[length]".toList
    decide

/-- Both exponents are printed as `1e+06`. -/
theorem million_not_canonical : ¬ Canonical (fun _ => .error "undefined unit")
    (lengthTo 1000001 (by norm_num)) (lengthTo 1000002 (by norm_num)) := by
  rintro ⟨h, _⟩
  have hlike : Alike (lengthTo 1000001 (by norm_num)) (lengthTo 1000002 (by norm_num)) := by
    have hseen : seen ("[length]", 1000001) = seen ("[length]", 1000002) := by
      decide +kernel
    show List.Perm [seen ("[length]", 1000001)] [seen ("[length]", 1000002)]
    rw [hseen]
  have hsame := List.singleton_perm_singleton.mp (h.mp (render_eq_iff.mpr hlike))
  norm_num at hsame

end Units
end Rekuest
