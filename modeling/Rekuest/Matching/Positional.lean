import Rekuest.Matching.Parameters

/-!
# Rekuest.Matching.Positional

The statement of port demands with numbered placeholders.

* `Wordy`: a name of letters, digits and underscores. `plain_portDemandSql`: the statement is
  written with such names, and without any other `%`.
* `toPositional_portDemandSql`: with numbered placeholders the server gets the same statement.
-/

namespace Rekuest
namespace Managers

open Coding Fallible Sql

/-- A name of letters, digits and underscores. -/
def Wordy (name : String) : Prop :=
  name.toList ≠ [] ∧ ∀ c ∈ name.toList, isWordChar c = true

instance (name : String) : Decidable (Wordy name) :=
  have : Decidable (∀ c ∈ name.toList, isWordChar c = true) := List.decidableBAll _ _
  inferInstanceAs (Decidable (_ ∧ _))

theorem wordy_snake {a b : String} (ha : Wordy a) (hb : Wordy b) : Wordy (snake a b) := by
  have hsep : ∀ c ∈ "_".toList, isWordChar c = true := by simp [isWordChar]
  refine ⟨by simp [snake], fun c hc => ?_⟩
  simp only [snake, String.toList_append, List.mem_append] at hc
  rcases hc with (hc | hc) | hc
  · exact ha.2 c hc
  · exact hsep c hc
  · exact hb.2 c hc

theorem wordy_toString (n : Nat) : Wordy (toString n) := by
  have hlist : (toString n).toList = numeral n := by simp [numeral]
  rw [Wordy, hlist]
  refine ⟨Nat.toDigits_ne_nil, fun c hc => ?_⟩
  simp [isWordChar, Char.isAlphanum, isDigit_of_mem_numeral hc]

theorem Wordy.percent {name : String} (h : Wordy name) : '%' ∉ name.toList := by
  intro hmem
  exact absurd (h.2 _ hmem) (by decide)

/-- A text without a `%`. -/
def Clear (s : String) : Prop := '%' ∉ s.toList

instance (s : String) : Decidable (Clear s) := inferInstanceAs (Decidable (¬ _))

theorem plain_column {label name : String} (hl : Clear label) (hn : Clear name) :
    (Piece.raw (label ++ "." ++ name)).Plain := by
  simp only [Piece.Plain, String.toList_append, List.mem_append, not_or]
  exact ⟨⟨hl, by decide⟩, hn⟩

section

variable {pathMatch : String → String → Option Bool}

/-- What was built is written with plain names. -/
def Built.Plain (pathMatch : String → String → Option Bool) (b : Built) : Prop :=
  ∀ c ∈ b.conditions, AllPlain (c.pieces (postgres pathMatch))

theorem Built.Plain.append {b c : Built} (hb : b.Plain pathMatch) (hc : c.Plain pathMatch) :
    (b ++ c).Plain pathMatch := by
  intro d hd
  rcases List.mem_append.mp hd with hd | hd
  · exact hb d hd
  · exact hc d hd

theorem plain_empty : Built.Plain pathMatch {} := by
  intro c hc
  cases hc

theorem plain_one {c : Clause} {key : String} {value : SqlValue}
    (h : AllPlain (c.pieces (postgres pathMatch))) : (Built.one c key value).Plain pathMatch := by
  intro d hd
  rw [List.mem_singleton.mp hd]
  exact h

theorem plain_whereSet {α : Type} {value : Option α} {build : α → Built}
    (h : ∀ x, (build x).Plain pathMatch) : (whereSet value build).Plain pathMatch := by
  cases value with
  | none => exact plain_empty
  | some x => exact h x

theorem plain_parameter {label name key : String} (hl : Clear label) (hn : Clear name)
    (hk : Wordy key) :
    AllPlain ((Cond.eq (.column label name) (.param key) : Clause).pieces (postgres pathMatch)) := by
  simp only [Cond.pieces, Term.pieces, List.cons_append, List.nil_append, allPlain_cons]
  exact ⟨plain_column hl hn, by simp [Piece.Plain], hk, allPlain_nil⟩

theorem plain_columns {label name label' name' : String} (hl : Clear label) (hn : Clear name)
    (hl' : Clear label') (hn' : Clear name') :
    AllPlain ((Cond.eq (.column label name) (.column label' name') : Clause).pieces
      (postgres pathMatch)) := by
  simp only [Cond.pieces, Term.pieces, List.cons_append, List.nil_append, allPlain_cons]
  exact ⟨plain_column hl hn, by simp [Piece.Plain], plain_column hl' hn', allPlain_nil⟩

theorem plain_isNull {label name : String} (hl : Clear label) (hn : Clear name) :
    AllPlain ((Cond.isNull (.column label name) : Clause).pieces (postgres pathMatch)) := by
  simp only [Cond.pieces, Term.pieces, List.cons_append, List.nil_append, allPlain_cons]
  exact ⟨plain_column hl hn, by simp [Piece.Plain], allPlain_nil⟩

theorem plain_structural {label idPath : String} (hl : Clear label) (hid : Wordy idPath)
    {m : PortMatch} {f : StructuralField} (hf : f ∈ m.structuralFields) :
    (f.build label idPath).Plain pathMatch := by
  have hall : ∀ p ∈ [("at", "index"), ("key", "key"), ("kind", "kind"), ("ident", "identifier"),
      ("dim", "dimension"), ("null", "nullable")], Wordy p.1 ∧ Clear p.2 := by decide
  have hnames : Wordy f.tag ∧ Clear f.column :=
    hall _ (List.mem_map_of_mem (f := fun f => (f.tag, f.column)) hf)
  unfold StructuralField.build
  cases f.value with
  | none => exact plain_empty
  | some value => exact plain_one (plain_parameter hl hnames.2 (wordy_snake hnames.1 hid))

theorem plain_descriptors {label idPath : String} (hl : Clear label) (hid : Wordy idPath)
    (m : PortMatch) : (m.buildDescriptors label idPath).Plain pathMatch := by
  have hcolumn : Clear "compiled_jsonpath" := by decide
  have htag : Wordy "obj" := by decide
  unfold PortMatch.buildDescriptors
  split
  · exact plain_empty
  · refine plain_one ?_
    have hnull : AllPlain ((Cond.isNull (.column label "compiled_jsonpath") : Clause).pieces
        (postgres pathMatch)) := plain_isNull hl hcolumn
    simp only [Cond.pieces, Term.pieces, List.cons_append, List.nil_append, allPlain_cons,
      allPlain_nil, and_true] at hnull ⊢
    refine ⟨by simp [Piece.Plain], hnull.1, hnull.2, by simp [Piece.Plain], ?_,
      wordy_snake htag hid, ?_, plain_column hl hcolumn, ?_, by simp [Piece.Plain]⟩
    all_goals simp [Piece.Plain, postgres]

theorem plain_correlated {label actionLabel : String} {parentLabel : Option String}
    (hl : Clear label) (ha : Clear actionLabel) (hp : ∀ p, parentLabel = some p → Clear p) :
    Built.Plain pathMatch ⟨correlated actionLabel label parentLabel, []⟩ := by
  have hid : Clear "id" ∧ Clear "action_id" ∧ Clear "parent_id" := by decide
  cases parentLabel with
  | none =>
    intro c hc
    simp only [correlated, List.mem_cons, List.not_mem_nil, or_false] at hc
    rcases hc with rfl | rfl
    · exact plain_columns hl hid.2.1 ha hid.1
    · exact plain_isNull hl hid.2.2
  | some parentLabel =>
    intro c hc
    rw [List.mem_singleton.mp hc]
    exact plain_columns hl hid.2.2 (hp _ rfl) hid.1

theorem plain_exists {table label : String} {b : Built} (ht : Clear table) (hl : Clear label)
    (hb : b.Plain pathMatch) :
    Built.Plain pathMatch ⟨[.exists_ (.table table label) b.conditions], b.assigned⟩ := by
  have hsource : Clear (if label = table then table else table ++ " " ++ label) := by
    split
    · exact ht
    · simp only [Clear, String.toList_append, List.mem_append, not_or]
      exact ⟨⟨ht, by decide⟩, hl⟩
  intro c hc
  rw [List.mem_singleton.mp hc]
  simp only [Cond.pieces, Source.pieces, List.cons_append, List.nil_append, allPlain_cons,
    allPlain_append, allPlain_nil, and_true]
  exact ⟨by simp [Piece.Plain], hsource, by simp [Piece.Plain], allPlain_allPieces hb,
    by simp [Piece.Plain]⟩

mutual
theorem plain_buildMatchExists {table actionLabel : String} {parentLabel : Option String}
    {m : PortMatch} {idPath : String} {b : Built} (ht : Clear table) (ha : Clear actionLabel)
    (hp : ∀ p, parentLabel = some p → Clear p) (hid : Wordy idPath)
    (hb : buildMatchExists table actionLabel parentLabel idPath m = .ok b) :
    b.Plain pathMatch := by
  obtain ⟨_, nested, hnested, rfl⟩ := buildMatchExists_ok_iff.mp hb
  have hl : Clear (snake "p" idPath) := (wordy_snake (by decide) hid).percent
  have hchildren : nested.Plain pathMatch := by
    cases m with
    | mk _ _ _ _ _ _ _ children => exact plain_buildChildren ht ha hl hid hnested
  refine plain_exists ht hl ?_
  refine (((plain_correlated hl ha hp).append ?_).append (plain_descriptors hl hid m)).append
    hchildren
  intro c hc
  rw [Built.concat_conditions, List.mem_flatMap] at hc
  obtain ⟨b, hb, hc⟩ := hc
  obtain ⟨f, hf, rfl⟩ := List.mem_map.mp hb
  exact plain_structural hl hid hf c hc

theorem plain_buildChildren {table actionLabel label : String} {ms : List PortMatch}
    {idPath : String} {i : Nat} {b : Built} (ht : Clear table) (ha : Clear actionLabel)
    (hl : Clear label) (hid : Wordy idPath)
    (hb : buildChildren table actionLabel label idPath i ms = .ok b) : b.Plain pathMatch := by
  cases ms with
  | nil =>
    cases hb
    exact plain_empty
  | cons m ms =>
    obtain ⟨first, others, hfirst, hothers, rfl⟩ := buildChildren_cons_ok_iff.mp hb
    refine Built.Plain.append (plain_buildMatchExists ht ha ?_ (wordy_snake hid (wordy_toString i))
      hfirst) (plain_buildChildren ht ha hl hid hothers)
    intro p hp
    cases hp
    exact hl
end

theorem plain_buildMatches {table idPath : String} {ms : List PortMatch} {i : Nat} {b : Built}
    (ht : Clear table) (hid : Wordy idPath) (hb : buildMatches table "a" idPath i ms = .ok b) :
    b.Plain pathMatch := by
  induction ms generalizing i b with
  | nil =>
    cases hb
    exact plain_empty
  | cons m ms ih =>
    obtain ⟨first, others, hfirst, hothers, rfl⟩ := buildMatches_cons_ok_iff.mp hb
    refine Built.Plain.append (plain_buildMatchExists ht (by decide) ?_
      (wordy_snake hid (wordy_toString i)) hfirst) (ih hothers)
    intro p hp
    cases hp

theorem plain_rootCount {table key : String} {extra : Clause} {n : Int} (ht : Clear table)
    (hk : Wordy key) (hextra : extra = nonNullablePort ∨ extra = structurePort) :
    (rootCountSubquery table "a" extra key n).Plain pathMatch := by
  have hsource : Clear (if "pc" = table then table else table ++ " " ++ "pc") := by
    split
    · exact ht
    · simp only [Clear, String.toList_append, List.mem_append, not_or]
      exact ⟨⟨ht, by decide⟩, by decide⟩
  have hroots : AllPlain (Cond.allPieces (postgres pathMatch) (rootConditions extra)) := by
    refine allPlain_allPieces fun c hc => ?_
    simp only [rootConditions, List.mem_cons, List.not_mem_nil, or_false] at hc
    rcases hc with rfl | rfl | rfl
    · exact plain_columns (by decide) (by decide) (by decide) (by decide)
    · exact plain_isNull (by decide) (by decide)
    · have hfalse : Clear (SqlValue.write (.bool false)) := by decide
      have hstructure : Clear (SqlValue.write (.text "STRUCTURE")) := by decide
      rcases hextra with rfl | rfl
      · exact allPlain_append.mpr ⟨by simp [Term.pieces, Piece.Plain],
          allPlain_cons.mpr ⟨by simp [Piece.Plain], allPlain_cons.mpr ⟨hfalse, allPlain_nil⟩⟩⟩
      · exact allPlain_append.mpr ⟨by simp [Term.pieces, Piece.Plain],
          allPlain_cons.mpr ⟨by simp [Piece.Plain], allPlain_cons.mpr ⟨hstructure, allPlain_nil⟩⟩⟩
  refine plain_one ?_
  simp only [Cond.pieces, Source.pieces, Term.pieces, List.cons_append, List.nil_append,
    allPlain_cons, allPlain_append, allPlain_nil, and_true]
  exact ⟨by simp [Piece.Plain], hsource, by simp [Piece.Plain], hroots, by simp [Piece.Plain], hk⟩

theorem clear_of_portTable {kind table : String} (h : portTable kind = some table) :
    Clear table := by
  unfold portTable at h
  split at h
  · cases h
    decide
  · cases h
    decide
  · cases h

theorem plain_portDemandClauses {i : Nat} {d : PortDemand} {b : Built}
    (hb : portDemandClauses i d = .ok b) : b.Plain pathMatch := by
  obtain ⟨table, found, htable, hfound, rfl⟩ := portDemandClauses_ok_iff.mp hb
  have ht := clear_of_portTable htable
  have hi := wordy_toString i
  refine (((plain_buildMatches ht hi hfound).append (plain_whereSet fun n => ?_)).append
    (plain_whereSet fun n => ?_)).append (plain_whereSet fun n => ?_)
  · refine plain_one (plain_parameter (by decide) ?_ (wordy_snake (by decide) hi))
    unfold countColumn
    split <;> decide
  · exact plain_rootCount ht (wordy_snake (by decide) hi) (.inl rfl)
  · exact plain_rootCount ht (wordy_snake (by decide) hi) (.inr rfl)

theorem plain_allPortDemandClauses {i : Nat} {ds : List PortDemand} {b : Built}
    (hb : allPortDemandClauses i ds = .ok b) : b.Plain pathMatch := by
  induction ds generalizing i b with
  | nil =>
    cases hb
    exact plain_empty
  | cons d ds ih =>
    obtain ⟨first, others, hfirst, hothers, rfl⟩ := allPortDemandClauses_cons_ok_iff.mp hb
    exact (plain_portDemandClauses hfirst).append (ih hothers)

/-- The statement has no `%` but those of its placeholders. -/
theorem plain_portDemandSql {ds : List PortDemand} {org : Option SqlValue} {b : Built}
    (hb : portDemandSql ds org = .ok b) : AllPlain (portDemandPieces (postgres pathMatch) b) := by
  obtain ⟨clauses, hclauses, rfl, _⟩ := portDemandSql_ok_iff.mp hb
  refine allPlain_cons.mpr ⟨by simp [Piece.Plain], allPlain_allPieces ?_⟩
  refine Built.Plain.append (plain_whereSet fun v => ?_) (plain_allPortDemandClauses hclauses)
  exact plain_one (plain_parameter (by decide) (by decide) (by decide))

theorem placeholders_portDemandPieces {scope : List String} {b : Built} (h : b.Closed scope) :
    placeholders (portDemandPieces (postgres pathMatch) b) = b.names := by
  rw [portDemandPieces, placeholders_raw, Cond.placeholders_allPieces, h.keys]

/-- **Numbered placeholders.** Of the statement with numbered placeholders the server gets what it
gets of the one with names: every parameter is there, in the place of its name. -/
theorem toPositional_portDemandSql {ds : List PortDemand} {org : Option SqlValue} {b : Built}
    (hb : portDemandSql ds org = .ok b) :
    ∃ sql values, toPositional (text (portDemandPieces (postgres pathMatch) b)) b.params =
        some (sql, values) ∧
      bindPositional sql values =
        bindNamed b.params.get? (text (portDemandPieces (postgres pathMatch) b)) := by
  obtain ⟨hnodup, hclosed⟩ := portDemandSql_closed hb
  have hplain : AllPlain (portDemandPieces (postgres pathMatch) b) := plain_portDemandSql hb
  have hvalues : (placeholders (portDemandPieces (postgres pathMatch) b)).mapM b.params.get? =
      some (b.assigned.map Prod.snd) := by
    rw [placeholders_portDemandPieces hclosed, Built.names]
    have hreads := Built.reads_params hnodup
    clear hclosed hplain
    generalize b.params = params at hreads
    unfold Built.Reads at hreads
    generalize b.assigned = assigned at hreads
    induction assigned with
    | nil => rfl
    | cons kv assigned ih =>
      have hrest := ih fun kv' h => hreads kv' (List.mem_cons_of_mem _ h)
      simp [hreads kv List.mem_cons_self, hrest]
  refine ⟨_, _, ?_, bindPositional_text hplain hvalues⟩
  rw [toPositional, findall_text hplain, hvalues]
  rfl

end

end Managers
end Rekuest
