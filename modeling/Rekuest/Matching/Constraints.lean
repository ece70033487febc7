import Rekuest.Matching.Paths

/-!
# Rekuest.Matching.Constraints

Compiled constraints are JSONPath predicates, and which are not.

* `condition_shape`: what a descriptor compiles to, operator by operator.
* `writes_condition`, `breaks_condition`: that text is the one predicate that the descriptor stands
  for where the descriptor is renderable, and else it is no predicate at all.
* `compiled_predicate`: a list compiles to the conjunction of one predicate for each of it where each
  of it is renderable, and only there.
-/

namespace Rekuest
namespace Descriptors

open Coding Fallible Jsonpath

variable {d : Descriptor} {ds : List Descriptor} {path text conn : List Char} {items : List Json}
  {op : Comparison} {p : Predicate} {ps : List Predicate} {depth : Nat}
  {pred : List Jsonpath.Token → Option (Predicate × List Jsonpath.Token)}

/-! ## One value after another -/

/-- The comparisons of the values of a list. -/
def parts (path conn : List Char) (items : List Json) : List (List Char) :=
  items.map fun v => path ++ (conn ++ ' ' :: dumpsAscii v)

theorem writes_parts (pred : List Jsonpath.Token → Option (Predicate × List Jsonpath.Token))
    (hlinked : Linked conn [] [] op) (hpath : normalizeJsonpathKey d.key = .ok path)
    (hplain : ∀ w ∈ keyWords d.key, ¬ StartsWithDigit w)
    (h : List.Forall₂ (fun v p => (scalarOf v).map (.compare d.path op) = some p) items ps) :
    List.Forall₂ (Writes (unit pred) anyToken) (parts path conn items) ps := by
  rw [parts, List.forall₂_map_left_iff]
  refine h.imp fun v p hv => ?_
  obtain ⟨s, hs, rfl⟩ := Option.map_eq_some_iff.mp hv
  have hwrites : Writes (unit pred) anyToken _ _ := writes_compare hlinked hpath hplain hs
  rwa [List.append_nil] at hwrites

/-- Each comparison is read or breaks, and some one breaks. -/
theorem breaks_parts (pred : List Jsonpath.Token → Option (Predicate × List Jsonpath.Token))
    (hlinked : Linked conn [] [] op) (hpath : normalizeJsonpathKey d.key = .ok path)
    (hne : items ≠ []) (hgenuine : ∀ x, .float x ∈ items → Genuine x)
    (hbad : ¬((∀ w ∈ keyWords d.key, ¬ StartsWithDigit w) ∧
      ∀ v ∈ items, (scalarOf v).isSome = true)) :
    (∀ t ∈ parts path conn items, (∃ p, Writes (unit pred) anyToken t p) ∨ Breaks (unit pred) t) ∧
      ∃ t ∈ parts path conn items, Breaks (unit pred) t := by
  have hbreaks : ∀ v ∈ items, (∃ w ∈ keyWords d.key, StartsWithDigit w) ∨ scalarOf v = none →
      Breaks (unit pred) (path ++ (conn ++ ' ' :: dumpsAscii v)) := fun v hv hcase =>
    breaks_compare hlinked hpath hcase fun x hx => hgenuine x (hx ▸ hv)
  by_cases hdigit : ∃ w ∈ keyWords d.key, StartsWithDigit w
  · have hall : ∀ t ∈ parts path conn items, Breaks (unit pred) t := by
      intro t ht
      obtain ⟨v, hv, rfl⟩ := List.mem_map.mp ht
      exact hbreaks v hv (.inl hdigit)
    obtain ⟨t, ht⟩ := List.exists_mem_of_ne_nil (parts path conn items) (by simpa [parts] using hne)
    exact ⟨fun t ht => .inr (hall t ht), t, ht, hall t ht⟩
  · have hplain : ∀ w ∈ keyWords d.key, ¬ StartsWithDigit w := by
      intro w hw hstarts
      exact hdigit ⟨w, hw, hstarts⟩
    constructor
    · intro t ht
      obtain ⟨v, hv, rfl⟩ := List.mem_map.mp ht
      cases hs : scalarOf v with
      | none => exact .inr (hbreaks v hv (.inr hs))
      | some s => exact .inl ⟨_, writes_compare hlinked hpath hplain hs⟩
    · have hsome : ∃ v ∈ items, scalarOf v = none := by
        by_contra hno
        refine hbad ⟨hplain, fun v hv => ?_⟩
        rw [Option.isSome_iff_ne_none]
        intro hnone
        exact hno ⟨v, hv, hnone⟩
      obtain ⟨v, hv, hnone⟩ := hsome
      exact ⟨_, List.mem_map.mpr ⟨v, hv, rfl⟩, hbreaks v hv (.inr hnone)⟩

/-! ## One descriptor -/

/-- What a descriptor of each kind compiles to, and what it stands for. -/
theorem condition_shape (h : compileCondition d = .ok text) :
    ∃ path, normalizeJsonpathKey d.key = .ok path ∧
      ((∃ conn acc more op, Linked conn acc more op ∧
          text = path ++ (conn ++ ' ' :: dumpsAscii d.value) ∧
          d.meaning = (scalarOf d.value).map (.compare (d.path ++ more) op) ∧
          (d.ScalarValues ↔ (scalarOf d.value).isSome = true)) ∨
        (text = "exists(".toList ++ (path ++ [')']) ∧ d.meaning = some (.existence d.path) ∧
          d.ScalarValues) ∨
        (text = '!' :: '(' :: ("exists(".toList ++ (path ++ [')']) ++ [')']) ∧
          d.meaning = some (.not (.existence d.path)) ∧ d.ScalarValues) ∨
        (∃ items, d.operator = .isIn ∧ d.value = .arr items ∧
          text = alternatives " || " "false" (parts path " ==".toList items) ∧
          d.meaning = (d.comparisons .eq).bind (Descriptor.joinedBy .or) ∧
          (d.ScalarValues ↔ items ≠ [] ∧ ∀ v ∈ items, (scalarOf v).isSome = true)) ∨
        ∃ items, d.operator = .notIn ∧ d.value = .arr items ∧
          text = alternatives " && " "true" (parts path " !=".toList items) ∧
          d.meaning = (d.comparisons .ne).bind (Descriptor.joinedBy .and) ∧
          (d.ScalarValues ↔ items ≠ [] ∧ ∀ v ∈ items, (scalarOf v).isSome = true)) := by
  obtain ⟨path, hpath, h⟩ := bind_ok_iff.mp h
  refine ⟨path, hpath, ?_⟩
  unfold Descriptor.meaning Descriptor.ScalarValues
  cases hop : d.operator with
  | existence =>
    rw [hop] at h
    cases hvalue : d.value with
    | bool b =>
      rw [hvalue] at h
      cases b with
      | true =>
        cases h
        exact .inr (.inl ⟨by simp, rfl, trivial⟩)
      | false =>
        cases h
        exact .inr (.inr (.inl ⟨by simp, rfl, trivial⟩))
    | _ =>
      rw [hvalue] at h
      cases h
  | «matches» =>
    rw [hop] at h
    cases h
    exact .inl ⟨_, _, _, _, linked_eq, by simp, by simp, Iff.rfl⟩
  | equals =>
    rw [hop] at h
    cases h
    exact .inl ⟨_, _, _, _, linked_eq, by simp, by simp, Iff.rfl⟩
  | notEquals =>
    rw [hop] at h
    cases h
    exact .inl ⟨_, _, _, _, linked_ne, by simp, by simp, Iff.rfl⟩
  | gte =>
    rw [hop] at h
    cases h
    exact .inl ⟨_, _, _, _, linked_ge, by simp, by simp, Iff.rfl⟩
  | lte =>
    rw [hop] at h
    cases h
    exact .inl ⟨_, _, _, _, linked_le, by simp, by simp, Iff.rfl⟩
  | contains =>
    rw [hop] at h
    cases h
    exact .inl ⟨_, _, _, _, linked_elements, by simp, rfl, Iff.rfl⟩
  | isIn =>
    rw [hop] at h
    cases hvalue : d.value with
    | arr items =>
      rw [hvalue] at h
      cases h
      exact .inr (.inr (.inr (.inl ⟨items, rfl, rfl, by simp [parts], rfl, Iff.rfl⟩)))
    | _ =>
      rw [hvalue] at h
      cases h
  | notIn =>
    rw [hop] at h
    cases hvalue : d.value with
    | arr items =>
      rw [hvalue] at h
      cases h
      exact .inr (.inr (.inr (.inr ⟨items, rfl, rfl, by simp [parts], rfl, Iff.rfl⟩)))
    | _ =>
      rw [hvalue] at h
      cases h

theorem not_isSome {α : Type} {x : Option α} : ¬ x.isSome = true ↔ x = none := by
  cases x <;> simp

/-- A key with a blank before the end of its test for existence. -/
theorem writes_found (hpath : normalizeJsonpathKey d.key = .ok path)
    (hplain : ∀ w ∈ keyWords d.key, ¬ StartsWithDigit w) :
    Writes (unit pred) anyToken ("exists(".toList ++ (path ++ [')'])) (.existence d.path) := by
  obtain ⟨hwords, lead, hlead, rfl⟩ := normalize_ok hpath
  rw [List.append_assoc]
  exact writes_existence hlead keyWords_ne_nil hwords hplain

theorem breaks_found (hpath : normalizeJsonpathKey d.key = .ok path)
    (hdigit : ∃ w ∈ keyWords d.key, StartsWithDigit w) :
    Breaks (unit pred) ("exists(".toList ++ (path ++ [')'])) := by
  obtain ⟨hwords, lead, hlead, rfl⟩ := normalize_ok hpath
  rw [List.append_assoc]
  exact breaks_existence keyWords_ne_nil hwords hdigit

theorem alternatives_of_ne {operator none : String} (hne : items ≠ []) :
    alternatives operator none (parts path conn items) =
      '(' :: (List.intercalate operator.toList (parts path conn items) ++ [')']) := by
  have hparts : (parts path conn items).isEmpty = false := by simpa [parts] using hne
  rw [alternatives, hparts]
  rfl

/-- All the values of a list that can be written have their comparisons. -/
theorem comparisons_of_scalars (op : Comparison) (hvalue : d.value = .arr items) (hne : items ≠ [])
    (hscalars : ∀ v ∈ items, (scalarOf v).isSome = true) :
    ∃ p ps, d.comparisons op = some (p :: ps) ∧
      List.Forall₂ (fun v p => (scalarOf v).map (.compare d.path op) = some p) items (p :: ps) := by
  have hsome : ∀ v ∈ items, ∃ p, (scalarOf v).map (Predicate.compare d.path op) = some p := by
    intro v hv
    obtain ⟨s, hs⟩ := Option.isSome_iff_exists.mp (hscalars v hv)
    exact ⟨.compare d.path op s, by rw [hs]; rfl⟩
  obtain ⟨ps, hps⟩ := exists_forall₂ hsome
  cases ps with
  | nil => exact absurd (List.forall₂_nil_right_iff.mp hps) hne
  | cons p ps =>
    refine ⟨p, ps, ?_, hps⟩
    rw [Descriptor.comparisons, hvalue, listOf]
    exact mapM_some_iff.mpr hps

/-- A renderable descriptor compiles to the predicate that it stands for. -/
theorem writes_condition (h : compileCondition d = .ok text) (hrenderable : d.Renderable) :
    ∃ p, d.meaning = some p ∧
      ∀ depth, Writes (unit (predicate (depth + 1))) anyToken text p := by
  obtain ⟨hplain, hscalar⟩ := hrenderable
  obtain ⟨path, hpath, hshape⟩ := condition_shape h
  rcases hshape with ⟨conn, acc, more, op, hlinked, rfl, hmeaning, hiff⟩ |
    ⟨rfl, hmeaning, _⟩ | ⟨rfl, hmeaning, _⟩ | ⟨items, _, hvalue, rfl, hmeaning, hiff⟩ |
    ⟨items, _, hvalue, rfl, hmeaning, hiff⟩
  · obtain ⟨s, hs⟩ := Option.isSome_iff_exists.mp (hiff.mp hscalar)
    refine ⟨.compare (d.path ++ more) op s, by rw [hmeaning, hs]; rfl, fun depth => ?_⟩
    exact writes_compare hlinked hpath hplain hs
  · exact ⟨_, hmeaning, fun depth => writes_found hpath hplain⟩
  · refine ⟨_, hmeaning, fun depth => ?_⟩
    have hfound : Writes (unit (predicate depth)) anyToken ("exists(".toList ++ (path ++ [')']))
        (.existence d.path) := writes_found hpath hplain
    exact writes_negation (fun ts => by simp [Past])
      (hfound.conjunction (predicate_shrinks depth)).predicate
  · obtain ⟨hne, hscalars⟩ := hiff.mp hscalar
    obtain ⟨p, ps, hcomparisons, hall⟩ := comparisons_of_scalars .eq hvalue hne hscalars
    refine ⟨ps.foldl .or p, by rw [hmeaning, hcomparisons]; rfl, fun depth => ?_⟩
    have hparts := writes_parts (predicate depth) linked_eq hpath hplain hall
    rw [alternatives_of_ne hne]
    exact writes_parens (fun ts => by simp [Past])
      (writes_predicate (hparts.imp fun t p ht => ht.conjunction (predicate_shrinks depth)))
  · obtain ⟨hne, hscalars⟩ := hiff.mp hscalar
    obtain ⟨p, ps, hcomparisons, hall⟩ := comparisons_of_scalars .ne hvalue hne hscalars
    refine ⟨ps.foldl .and p, by rw [hmeaning, hcomparisons]; rfl, fun depth => ?_⟩
    have hparts := writes_parts (predicate depth) linked_ne hpath hplain hall
    rw [alternatives_of_ne hne]
    exact writes_parens (fun ts => by simp [Past])
      (writes_conjunction (predicate_shrinks depth) hparts).predicate

/-- Another one compiles to no predicate at all. -/
theorem breaks_condition (h : compileCondition d = .ok text) (hrenderable : ¬ d.Renderable)
    (hgenuine : d.GenuineFloats) : ∀ depth, Breaks (unit (predicate (depth + 1))) text := by
  intro depth
  obtain ⟨path, hpath, hshape⟩ := condition_shape h
  have hdigit : d.ScalarValues → ∃ w ∈ keyWords d.key, StartsWithDigit w := by
    intro hscalar
    by_contra hno
    refine hrenderable ⟨fun w hw hstarts => hno ⟨w, hw, hstarts⟩, hscalar⟩
  rcases hshape with ⟨conn, acc, more, op, hlinked, rfl, _, hiff⟩ |
    ⟨rfl, _, hscalar⟩ | ⟨rfl, _, hscalar⟩ | ⟨items, _, hvalue, rfl, _, hiff⟩ |
    ⟨items, _, hvalue, rfl, _, hiff⟩
  · refine breaks_compare hlinked hpath ?_ fun x hx => hgenuine x (.inl hx)
    by_cases hs : (scalarOf d.value).isSome = true
    · exact .inl (hdigit (hiff.mpr hs))
    · exact .inr (not_isSome.mp hs)
  · exact breaks_found hpath (hdigit hscalar)
  · have hfound : Breaks (unit (predicate depth)) ("exists(".toList ++ (path ++ [')'])) :=
      breaks_found hpath (hdigit hscalar)
    exact breaks_negation (hfound.conjunction (predicate_shrinks depth)).predicate
  · cases items with
    | nil =>
      have hword : Breaks (unit (predicate depth)) "false".toList :=
        breaks_bare_word (by decide) (by decide) (by decide)
      exact breaks_parens (hword.conjunction (predicate_shrinks depth)).predicate
    | cons v items =>
      have hne : v :: items ≠ [] := List.cons_ne_nil _ _
      obtain ⟨hall, hbad⟩ := breaks_parts (predicate depth) linked_eq hpath hne
        (fun x hx => hgenuine x (.inr (by rw [hvalue]; exact hx)))
        fun hboth => hrenderable ⟨hboth.1, hiff.mpr ⟨hne, hboth.2⟩⟩
      rw [alternatives_of_ne hne]
      refine breaks_parens (breaks_predicate (fun t ht => ?_) ?_)
      · rcases hall t ht with ⟨p, hp⟩ | hb
        · exact .inl ⟨p, hp.conjunction (predicate_shrinks depth)⟩
        · exact .inr (hb.conjunction (predicate_shrinks depth))
      · obtain ⟨t, ht, hb⟩ := hbad
        exact ⟨t, ht, hb.conjunction (predicate_shrinks depth)⟩
  · cases items with
    | nil =>
      have hword : Breaks (unit (predicate depth)) "true".toList :=
        breaks_bare_word (by decide) (by decide) (by decide)
      exact breaks_parens (hword.conjunction (predicate_shrinks depth)).predicate
    | cons v items =>
      have hne : v :: items ≠ [] := List.cons_ne_nil _ _
      obtain ⟨hall, hbad⟩ := breaks_parts (predicate depth) linked_ne hpath hne
        (fun x hx => hgenuine x (.inr (by rw [hvalue]; exact hx)))
        fun hboth => hrenderable ⟨hboth.1, hiff.mpr ⟨hne, hboth.2⟩⟩
      rw [alternatives_of_ne hne]
      exact breaks_parens (breaks_conjunction (predicate_shrinks depth) hall hbad).predicate

/-! ## Lists of descriptors -/

/-- The text is a predicate: the conjunction of one for each descriptor, over its key and value. -/
def IsConjunction (ds : List Descriptor) (text : String) : Prop :=
  ∃ p ps, List.Forall₂ (fun (d : Descriptor) p => d.meaning = some p) ds (p :: ps) ∧
    parse text = some (ps.foldl .and p)

theorem compileDescriptors_ok {text : String} (h : compileDescriptors ds = .ok (some text)) :
    ds ≠ [] ∧ ∃ texts, List.Forall₂ (fun d t => compileCondition d = .ok t) ds texts ∧
      text = String.ofList (List.intercalate " && ".toList texts) := by
  unfold compileDescriptors at h
  split at h
  · cases h
  · rename_i hne
    obtain ⟨texts, htexts, hpure⟩ := bind_ok_iff.mp h
    cases hpure
    exact ⟨by simpa using hne, texts, mapM_ok_iff.mp htexts, rfl⟩

theorem isConjunction_of_renderable {text : String} (h : compileDescriptors ds = .ok (some text))
    (hrenderable : ∀ d ∈ ds, d.Renderable) : IsConjunction ds text := by
  obtain ⟨hne, texts, htexts, rfl⟩ := compileDescriptors_ok h
  have hall : ∃ ps, List.Forall₂ (fun (d : Descriptor) p => d.meaning = some p) ds ps ∧
      ∀ depth, List.Forall₂ (Writes (unit (predicate (depth + 1))) anyToken) texts ps := by
    clear hne h
    induction htexts with
    | nil => exact ⟨[], .nil, fun _ => .nil⟩
    | @cons d t ds texts hd _ ih =>
      obtain ⟨p, hmeaning, hwrites⟩ := writes_condition hd (hrenderable d (by simp))
      obtain ⟨ps, hps, hrest⟩ := ih fun d hd => hrenderable d (by simp [hd])
      exact ⟨p :: ps, .cons hmeaning hps, fun depth => .cons (hwrites depth) (hrest depth)⟩
  obtain ⟨ps, hps, hwrites⟩ := hall
  cases ps with
  | nil =>
    cases hps
    exact absurd rfl hne
  | cons p ps =>
    refine ⟨p, ps, hps, parse_of_writes fun depth => ?_⟩
    exact (writes_conjunction (predicate_shrinks (depth + 1)) (hwrites depth)).predicate

/-- One that is not renderable takes the whole constraint with it. -/
theorem parse_of_not_renderable {text : String} (h : compileDescriptors ds = .ok (some text))
    (hgenuine : ∀ d ∈ ds, d.GenuineFloats) (hbad : ∃ d ∈ ds, ¬ d.Renderable) : parse text = none := by
  obtain ⟨_, texts, htexts, rfl⟩ := compileDescriptors_ok h
  refine parse_of_breaks fun depth => ?_
  refine (breaks_conjunction (predicate_shrinks (depth + 1)) (fun t ht => ?_) ?_).predicate
  · obtain ⟨d, hd, hcompile⟩ := mem_right_of_forall₂ htexts ht
    by_cases hrenderable : d.Renderable
    · obtain ⟨p, _, hwrites⟩ := writes_condition hcompile hrenderable
      exact .inl ⟨p, hwrites depth⟩
    · exact .inr (breaks_condition hcompile hrenderable (hgenuine d hd) depth)
  · obtain ⟨d, hd, hrenderable⟩ := hbad
    obtain ⟨t, ht, hcompile⟩ := mem_left_of_forall₂ htexts hd
    exact ⟨t, ht, breaks_condition hcompile hrenderable (hgenuine d hd) depth⟩

/-- **Compiled constraints are predicates** where every descriptor is renderable, and only there. -/
theorem compiled_predicate (ds : List Descriptor) (text : String)
    (h : compileDescriptors ds = .ok (some text)) (hgenuine : ∀ d ∈ ds, d.GenuineFloats) :
    IsConjunction ds text ↔ ∀ d ∈ ds, d.Renderable := by
  constructor
  · rintro ⟨p, ps, _, hparse⟩
    by_contra hbad
    simp only [not_forall] at hbad
    obtain ⟨d, hd, hrenderable⟩ := hbad
    rw [parse_of_not_renderable h hgenuine ⟨d, hd, hrenderable⟩] at hparse
    cases hparse
  · exact isConjunction_of_renderable h

/-- One value, and a list of others. -/
theorem axes_predicate : IsConjunction
    [⟨"axes", .equals, .str "c"⟩, ⟨"$.size", .isIn, .arr [.num 1, .num 2]⟩]
    "$.axes == \"c\" && ($.size == 1 || $.size == 2)" := by
  refine (compiled_predicate _ _ rfl fun d hd x hx => ?_).mpr fun d hd => ?_
  · simp only [List.mem_cons, List.not_mem_nil, or_false] at hd
    rcases hd with rfl | rfl <;> simp [listOf] at hx
  · simp only [List.mem_cons, List.not_mem_nil, or_false] at hd
    rcases hd with rfl | rfl
    · exact ⟨by decide, rfl⟩
    · exact ⟨by decide, by decide, fun v hv => by
        simp only [listOf, List.mem_cons, List.not_mem_nil, or_false] at hv
        rcases hv with rfl | rfl <;> rfl⟩

/-- A list is not written as one value in a path, and the words for no alternative are no predicate. -/
theorem list_literal_no_predicate :
    compileDescriptors [⟨"tags", .equals, .arr [.str "brain"]⟩] = .ok (some "$.tags == [\"brain\"]") ∧
      parse "$.tags == [\"brain\"]" = none ∧
      ¬ IsConjunction [⟨"tags", .equals, .arr [.str "brain"]⟩] "$.tags == [\"brain\"]" ∧
      compileDescriptors [⟨"size", .existence, .bool true⟩, ⟨"axes", .isIn, .arr []⟩] =
        .ok (some "exists($.size) && (false)") ∧
      parse "exists($.size) && (false)" = none := by
  have hparse : parse "$.tags == [\"brain\"]" = none := by decide +kernel
  refine ⟨rfl, hparse, ?_, rfl, by decide +kernel⟩
  rintro ⟨p, ps, _, hsome⟩
  rw [hparse] at hsome
  cases hsome

end Descriptors
end Rekuest
