import Rekuest.Fallible.Fold
import Rekuest.Managers

/-!
# Rekuest.Matching.Clauses

What the clauses of the relational matcher ask of the rows, whatever their aliases and parameters
are called.

* `PortMatch.MatchesRow`: a row and the rows below it match a match tree.
* `hold_buildMatchExists`: the clause of a match is true where some correlated row matches. A
  child's clause refers to its own alias and to the one of its parent, which has fewer words.
* `buildMatchExists_ok_iff`: what is built, and when. `isOk_buildMatchExists`: names play no part.
-/

namespace Rekuest
namespace Managers

open Coding Fallible Sql

/-! ## Rows -/

/-- `a = b`, of columns that may be `NULL`. -/
def SqlEq (a b : Option SqlValue) : Prop :=
  ∃ v v', a = some v ∧ b = some v' ∧ SqlValue.equal v v' = true

def StructuralField.Accepts (row : Row SqlValue) (f : StructuralField) : Prop :=
  ∀ value, f.value = some value → SqlEq (row f.column) (some value)

section

variable (pathMatch : String → String → Option Bool) (rows : List (Row SqlValue))

/-- The constraint of the row accepts the candidate. A row without one accepts any. -/
def PortMatch.AcceptsPath (row : Row SqlValue) (m : PortMatch) : Prop :=
  m.descriptors ≠ [] → row "compiled_jsonpath" = none ∨
    ∃ path, row "compiled_jsonpath" = some (.text path) ∧
      pathMatch m.candidateObject path = some true

mutual
/-- The row is as the match says, and for every child match some row below it matches. -/
def PortMatch.MatchesRow (row : Row SqlValue) : PortMatch → Prop
  | m@⟨_, _, _, _, _, _, _, children⟩ =>
    (∀ f ∈ m.structuralFields, f.Accepts row) ∧ m.AcceptsPath pathMatch row ∧
      PortMatch.AllMatchBelow row children

def PortMatch.AllMatchBelow (row : Row SqlValue) : List PortMatch → Prop
  | [] => True
  | m :: ms =>
    (∃ r ∈ rows, SqlEq (r "parent_id") (row "id") ∧ m.MatchesRow r) ∧
      PortMatch.AllMatchBelow row ms
end

variable {pathMatch rows}

theorem allMatchBelow_iff {row : Row SqlValue} {ms : List PortMatch} :
    PortMatch.AllMatchBelow pathMatch rows row ms ↔
      ∀ m ∈ ms, ∃ r ∈ rows, SqlEq (r "parent_id") (row "id") ∧ m.MatchesRow pathMatch rows r := by
  induction ms with
  | nil => simp [PortMatch.AllMatchBelow]
  | cons m ms ih => simp [PortMatch.AllMatchBelow, ih]

theorem matchesRow_iff {row : Row SqlValue} {m : PortMatch} :
    m.MatchesRow pathMatch rows row ↔
      (∀ f ∈ m.structuralFields, f.Accepts row) ∧ m.AcceptsPath pathMatch row ∧
        ∀ c ∈ m.children, ∃ r ∈ rows, SqlEq (r "parent_id") (row "id") ∧
          c.MatchesRow pathMatch rows r := by
  cases m
  rw [PortMatch.MatchesRow, allMatchBelow_iff]

end

/-- The row hangs together with the scope around it. -/
def Correlates (s : Scope SqlValue) (actionLabel : String) (row : Row SqlValue) :
    Option String → Prop
  | none => SqlEq (row "action_id") (s.column actionLabel "id") ∧ row "parent_id" = none
  | some parentLabel => SqlEq (row "parent_id") (s.column parentLabel "id")

/-! ## What is built -/

variable {table actionLabel : String} {parentLabel : Option String} {idPath : String}

/-- A root match with nothing but descriptors, and perhaps children, is refused. -/
def PortMatch.Refused (parentLabel : Option String) (m : PortMatch) : Prop :=
  m.descriptors ≠ [] ∧ parentLabel = none ∧ m.hasStructuralNarrowing = false

/-- The conditions inside a match's subquery. -/
def innerClauses (actionLabel : String) (parentLabel : Option String) (idPath : String)
    (m : PortMatch) (nested : Built) : Built :=
  ⟨correlated actionLabel (snake "p" idPath) parentLabel, []⟩ ++
    Built.concat (m.structuralFields.map (StructuralField.build (snake "p" idPath) idPath)) ++
    m.buildDescriptors (snake "p" idPath) idPath ++ nested

theorem buildMatchExists_ok_iff {m : PortMatch} {b : Built} :
    buildMatchExists table actionLabel parentLabel idPath m = .ok b ↔
      ¬ m.Refused parentLabel ∧ ∃ nested,
        buildChildren table actionLabel (snake "p" idPath) idPath 0 m.children = .ok nested ∧
        ⟨[.exists_ (.table table (snake "p" idPath))
          (innerClauses actionLabel parentLabel idPath m nested).conditions],
          (innerClauses actionLabel parentLabel idPath m nested).assigned⟩ = b := by
  cases m with
  | mk at_ key kind identifier nullable dimension descriptors children =>
    unfold buildMatchExists PortMatch.Refused innerClauses
    by_cases hr : (!descriptors.isEmpty && parentLabel.isNone &&
        !PortMatch.hasStructuralNarrowing
          ⟨at_, key, kind, identifier, nullable, dimension, descriptors, children⟩) = true
    · rw [if_pos hr]
      simp only [Bool.and_eq_true, Bool.not_eq_true', List.isEmpty_eq_false_iff,
        Option.isNone_iff_eq_none] at hr
      refine iff_of_false ?_ fun h => h.1 ⟨hr.1.1, hr.1.2, hr.2⟩
      intro h
      cases h
    · rw [if_neg hr]
      simp only [Bool.and_eq_true, Bool.not_eq_true', List.isEmpty_eq_false_iff,
        Option.isNone_iff_eq_none] at hr
      have hr' : ¬ (descriptors ≠ [] ∧ parentLabel = none ∧ PortMatch.hasStructuralNarrowing
          ⟨at_, key, kind, identifier, nullable, dimension, descriptors, children⟩ = false) :=
        fun h => hr ⟨⟨h.1, h.2.1⟩, h.2.2⟩
      simp only [hr', not_false_eq_true, true_and]
      exact bind_ok_iff.trans (exists_congr fun nested => and_congr_right fun _ => pure_ok_iff)

theorem buildChildren_cons_ok_iff {label : String} {i : Nat} {m : PortMatch} {ms : List PortMatch}
    {b : Built} :
    buildChildren table actionLabel label idPath i (m :: ms) = .ok b ↔ ∃ first others,
      buildMatchExists table actionLabel (some label) (snake idPath (toString i)) m = .ok first ∧
      buildChildren table actionLabel label idPath (i + 1) ms = .ok others ∧ first ++ others = b := by
  simp only [buildChildren, bind_ok_iff, pure_ok_iff, exists_and_left]

theorem requireClauses_ok_iff {about : String} {b b' : Built} :
    requireClauses about b = .ok b' ↔ b = b' ∧ b'.conditions ≠ [] := by
  unfold requireClauses
  by_cases hempty : b.conditions.isEmpty = true
  · rw [if_pos hempty]
    refine iff_of_false ?_ ?_
    · intro h
      cases h
    · rintro ⟨rfl, hne⟩
      exact hne (List.isEmpty_iff.mp hempty)
  · rw [if_neg hempty]
    have hne : b.conditions ≠ [] := fun h => hempty (List.isEmpty_iff.mpr h)
    refine pure_ok_iff.trans ⟨?_, And.left⟩
    rintro rfl
    exact ⟨rfl, hne⟩

/-! ## What it means -/

/-- The parameters are as they were set. -/
def Built.Reads (params : String → Option SqlValue) (b : Built) : Prop :=
  ∀ kv ∈ b.assigned, params kv.1 = some kv.2

namespace Built.Reads

variable {params : String → Option SqlValue} {b c : Built}

theorem append_iff : (b ++ c).Reads params ↔ b.Reads params ∧ c.Reads params := by
  simp only [Reads, append_assigned, List.mem_append, or_imp, forall_and]

theorem concat {bs : List Built} (h : (concat bs).Reads params) (hb : b ∈ bs) : b.Reads params := by
  intro kv hkv
  exact h kv (by rw [concat_assigned]; exact List.mem_flatMap.mpr ⟨b, hb, hkv⟩)

end Built.Reads

section

variable {pathMatch : String → String → Option Bool} {db : String → List (Row SqlValue)}
  {params : String → Option SqlValue} {label : String} {row : Row SqlValue} {s : Scope SqlValue}

/-- The conditions of what was built are true. -/
def Built.Hold (pathMatch : String → String → Option Bool) (db : String → List (Row SqlValue))
    (params : String → Option SqlValue) (s : Scope SqlValue) (b : Built) : Prop :=
  ∀ c ∈ b.conditions, Holds (postgres pathMatch) db params s c

theorem Built.hold_append {b c : Built} : (b ++ c).Hold pathMatch db params s ↔
    b.Hold pathMatch db params s ∧ c.Hold pathMatch db params s := by
  simp only [Hold, append_conditions, List.mem_append, or_imp, forall_and]

theorem Built.hold_concat {bs : List Built} : (concat bs).Hold pathMatch db params s ↔
    ∀ b ∈ bs, b.Hold pathMatch db params s := by
  simp only [Hold, concat_conditions, List.mem_flatMap]
  exact ⟨fun h b hb c hc => h c ⟨b, hb, hc⟩, fun h c ⟨b, hb, hc⟩ => h b hb c hc⟩

theorem Built.hold_one {c : Clause} {key : String} {value : SqlValue} :
    (one c key value).Hold pathMatch db params s ↔ Holds (postgres pathMatch) db params s c := by
  simp [Hold, one]

theorem eval_column (name : String) :
    Term.eval (postgres pathMatch) params ((label, row) :: s) (.column label name) = row name := by
  simp [Term.eval, Scope.column]

theorem hold_structural {f : StructuralField}
    (hreads : (f.build label idPath).Reads params) :
    (f.build label idPath).Hold pathMatch db params ((label, row) :: s) ↔ f.Accepts row := by
  unfold StructuralField.build StructuralField.Accepts at *
  cases hv : f.value with
  | none => simp [Built.Hold]
  | some value =>
    rw [hv] at hreads
    have hparam : params (snake f.tag idPath) = some value := hreads _ List.mem_cons_self
    simp only [Built.hold_one, holds_eq, eval_column, Option.some.injEq, forall_eq']
    simp only [Term.eval, hparam]
    rfl

theorem hold_descriptors {m : PortMatch} (hreads : (m.buildDescriptors label idPath).Reads params) :
    (m.buildDescriptors label idPath).Hold pathMatch db params ((label, row) :: s) ↔
      m.AcceptsPath pathMatch row := by
  unfold PortMatch.buildDescriptors PortMatch.AcceptsPath at *
  cases hd : m.descriptors with
  | nil => simp [Built.Hold]
  | cons d ds =>
    simp only [hd, List.isEmpty_cons, Bool.false_eq_true, if_false] at hreads
    have hparam : params (snake "obj" idPath) = some (.text m.candidateObject) :=
      hreads _ List.mem_cons_self
    simp only [List.isEmpty_cons, Bool.false_eq_true, if_false, Built.hold_one, holds_or,
      holds_isNull, holds_test, eval_column, ne_eq, reduceCtorEq, not_false_eq_true, true_imp_iff]
    refine or_congr_right ?_
    simp only [Term.eval, hparam, Option.some.injEq]
    constructor
    · rintro ⟨_, v, rfl, hv, htest⟩
      cases v with
      | text path => exact ⟨path, hv, htest⟩
      | _ => cases htest
    · rintro ⟨path, hv, htest⟩
      exact ⟨_, .text path, rfl, hv, htest⟩

theorem hold_correlated (hlabel : parentLabel.getD actionLabel ≠ label) :
    (∀ c ∈ correlated actionLabel label parentLabel,
      Holds (postgres pathMatch) db params ((label, row) :: s) c) ↔
      Correlates s actionLabel row parentLabel := by
  have hskip : ∀ (other name : String), other ≠ label →
      Term.eval (postgres pathMatch) params ((label, row) :: s) (.column other name) =
        s.column other name := by
    intro other name hne
    simp [Term.eval, Scope.column, List.lookup_cons, beq_eq_false_iff_ne.mpr hne]
  cases parentLabel with
  | none =>
    simp only [correlated, List.mem_cons, List.not_mem_nil, or_false, forall_eq_or_imp, forall_eq,
      holds_eq, holds_isNull, eval_column, hskip actionLabel "id" hlabel]
    rfl
  | some parentLabel =>
    simp only [correlated, List.mem_cons, List.not_mem_nil, or_false, forall_eq, holds_eq,
      eval_column, hskip parentLabel "id" hlabel]
    rfl

/-- Inside the subquery: the row hangs together with the scope, and is as the match says. -/
theorem hold_inner {m : PortMatch} {nested : Built}
    (hlabel : parentLabel.getD actionLabel ≠ snake "p" idPath)
    (hreads : (innerClauses actionLabel parentLabel idPath m nested).Reads params) :
    (innerClauses actionLabel parentLabel idPath m nested).Hold pathMatch db params
        ((snake "p" idPath, row) :: s) ↔
      Correlates s actionLabel row parentLabel ∧ (∀ f ∈ m.structuralFields, f.Accepts row) ∧
        m.AcceptsPath pathMatch row ∧
        nested.Hold pathMatch db params ((snake "p" idPath, row) :: s) := by
  unfold innerClauses at hreads ⊢
  simp only [Built.Reads.append_iff] at hreads
  obtain ⟨⟨⟨_, hfields⟩, hpath⟩, _⟩ := hreads
  rw [Built.hold_append, Built.hold_append, Built.hold_append, hold_descriptors hpath,
    Built.hold_concat, Built.Hold, hold_correlated hlabel, and_assoc, and_assoc]
  refine and_congr_right fun _ => and_congr_left fun _ => ?_
  rw [List.forall_mem_map]
  refine forall₂_congr fun f hf => ?_
  exact hold_structural (hfields.concat (List.mem_map_of_mem hf))

/-- A path has as many words as its parent's, and one more. -/
theorem label_ne (i : Nat) : snake "p" idPath ≠ snake "p" (snake idPath (toString i)) := by
  intro h
  have hwords := congrArg List.length (eq_of_words h)
  simp [toString] at hwords

theorem words_length_pos (name : String) : 0 < (words name).length :=
  List.length_pos_iff.mpr (List.splitOn_ne_nil _ _)

theorem action_ne_snake (x y : String) : "a" ≠ snake x y := by
  intro h
  have hwords := congrArg List.length (eq_of_words h)
  have haction : (words "a").length = 1 := by decide
  have hx := words_length_pos x
  have hy := words_length_pos y
  rw [words_snake, List.length_append] at hwords
  omega

mutual
/-- The clause of a match: some correlated row matches. -/
theorem hold_buildMatchExists {m : PortMatch} {parentLabel : Option String} {idPath : String}
    {b : Built} {s : Scope SqlValue}
    (hb : buildMatchExists table actionLabel parentLabel idPath m = .ok b)
    (hlabel : parentLabel.getD actionLabel ≠ snake "p" idPath) (hreads : b.Reads params) :
    b.Hold pathMatch db params s ↔
      ∃ row ∈ db table, Correlates s actionLabel row parentLabel ∧
        m.MatchesRow pathMatch (db table) row := by
  obtain ⟨_, nested, hnested, rfl⟩ := buildMatchExists_ok_iff.mp hb
  have hinner := hreads
  simp only [Built.Hold, List.mem_singleton, forall_eq, holds_exists, Source.scopes, List.mem_map,
    exists_exists_and_eq_and]
  refine exists_congr fun row => and_congr_right fun _ => ?_
  refine (hold_inner hlabel hinner).trans (and_congr_right fun _ => ?_)
  rw [matchesRow_iff]
  refine and_congr_right fun _ => and_congr_right fun _ => ?_
  have hreads' : nested.Reads params := (Built.Reads.append_iff.mp hinner).2
  cases m with
  | mk _ _ _ _ _ _ _ children => exact hold_buildChildren hnested hreads'

theorem hold_buildChildren {ms : List PortMatch} {idPath : String} {i : Nat} {b : Built}
    {row : Row SqlValue} {s : Scope SqlValue}
    (hb : buildChildren table actionLabel (snake "p" idPath) idPath i ms = .ok b)
    (hreads : b.Reads params) :
    b.Hold pathMatch db params ((snake "p" idPath, row) :: s) ↔
      ∀ m ∈ ms, ∃ r ∈ db table, SqlEq (r "parent_id") (row "id") ∧
        m.MatchesRow pathMatch (db table) r := by
  cases ms with
  | nil =>
    cases hb
    simp [Built.Hold]
  | cons m ms =>
    obtain ⟨first, others, hfirst, hothers, rfl⟩ := buildChildren_cons_ok_iff.mp hb
    obtain ⟨hr, hrs⟩ := Built.Reads.append_iff.mp hreads
    rw [Built.hold_append, List.forall_mem_cons, hold_buildMatchExists hfirst (label_ne i) hr,
      hold_buildChildren hothers hrs]
    simp only [Correlates, Scope.column, List.lookup_cons_self, Option.bind_some]
end

end

/-! ## When it is built -/

mutual
/-- A nested match is never refused. -/
theorem isOk_nested (table actionLabel label : String) (m : PortMatch) (idPath : String) :
    ∃ b, buildMatchExists table actionLabel (some label) idPath m = .ok b := by
  cases m with
  | mk at_ key kind identifier nullable dimension descriptors children =>
    obtain ⟨nested, hnested⟩ :=
      isOk_buildChildren table actionLabel (snake "p" idPath) children idPath 0
    refine ⟨_, buildMatchExists_ok_iff.mpr ⟨?_, nested, hnested, rfl⟩⟩
    intro h
    cases h.2.1

theorem isOk_buildChildren (table actionLabel label : String) (ms : List PortMatch)
    (idPath : String) (i : Nat) :
    ∃ b, buildChildren table actionLabel label idPath i ms = .ok b := by
  cases ms with
  | nil => exact ⟨_, rfl⟩
  | cons m ms =>
    obtain ⟨first, hfirst⟩ := isOk_nested table actionLabel label m (snake idPath (toString i))
    obtain ⟨others, hothers⟩ := isOk_buildChildren table actionLabel label ms idPath (i + 1)
    exact ⟨_, buildChildren_cons_ok_iff.mpr ⟨first, others, hfirst, hothers, rfl⟩⟩
end

/-- Which match is refused does not depend on names. -/
theorem isOk_buildMatchExists (table actionLabel : String) (parentLabel : Option String)
    (idPath : String) (m : PortMatch) :
    (∃ b, buildMatchExists table actionLabel parentLabel idPath m = .ok b) ↔
      ¬ m.Refused parentLabel := by
  constructor
  · rintro ⟨b, hb⟩
    exact (buildMatchExists_ok_iff.mp hb).1
  · intro h
    obtain ⟨nested, hnested⟩ :=
      isOk_buildChildren table actionLabel (snake "p" idPath) m.children idPath 0
    exact ⟨_, buildMatchExists_ok_iff.mpr ⟨h, nested, hnested, rfl⟩⟩

end Managers
end Rekuest
