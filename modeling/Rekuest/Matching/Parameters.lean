import Rekuest.Matching.Demands

/-!
# Rekuest.Matching.Parameters

The parameters of many demands in one statement.

* `Built.Closed`: what is built has a placeholder for each parameter it sets, and mentions no alias
  but those in scope.
* `OfDemand`, `OfActionDemand`: the parameters of the demand in a place, told by their words.
* `names_portDemandClauses`, `names_demandConditions`: the parameters of a demand have names of
  their own. `portDemandSql_closed`: so have those of the statement of all demands.
-/

namespace Rekuest
namespace Managers

open Coding Fallible Sql
open scoped List

/-! ## Placeholders -/

/-- Every parameter that is set has one placeholder, in the order of the parameters, and every alias
that is mentioned is in scope. -/
structure Built.Closed (scope : List String) (b : Built) : Prop where
  keys : Cond.allKeys b.conditions = b.names
  mentions : Cond.ScopedAll scope b.conditions

namespace Built.Closed

variable {scope : List String} {b c : Built}

theorem empty : Built.Closed scope {} := ⟨rfl, trivial⟩

theorem append (hb : b.Closed scope) (hc : c.Closed scope) : (b ++ c).Closed scope where
  keys := by rw [append_conditions, allKeys_append, hb.keys, hc.keys, names_append]
  mentions := by
    rw [append_conditions, scopedAll_iff]
    intro d hd
    rcases List.mem_append.mp hd with hd | hd
    · exact scopedAll_iff.mp hb.mentions d hd
    · exact scopedAll_iff.mp hc.mentions d hd

theorem concat {bs : List Built} (h : ∀ b ∈ bs, b.Closed scope) : (Built.concat bs).Closed scope := by
  induction bs with
  | nil => exact empty
  | cons b bs ih =>
    exact (h b List.mem_cons_self).append (ih fun c hc => h c (List.mem_cons_of_mem _ hc))

theorem whereSet {α : Type} {value : Option α} {build : α → Built}
    (h : ∀ x, (build x).Closed scope) : (whereSet value build).Closed scope := by
  cases value with
  | none => exact empty
  | some x => exact h x

end Built.Closed

theorem closed_structural {scope : List String} {label : String} (hl : label ∈ scope)
    (idPath : String) (f : StructuralField) : (f.build label idPath).Closed scope := by
  unfold StructuralField.build
  cases f.value with
  | none => exact .empty
  | some value => exact ⟨rfl, ⟨hl, trivial⟩, trivial⟩

theorem closed_descriptors {scope : List String} {label : String} (hl : label ∈ scope)
    (idPath : String) (m : PortMatch) : (m.buildDescriptors label idPath).Closed scope := by
  unfold PortMatch.buildDescriptors
  split
  · exact .empty
  · exact ⟨rfl, ⟨hl, trivial, hl⟩, trivial⟩

theorem closed_correlated {scope : List String} {actionLabel label : String}
    {parentLabel : Option String} (ha : actionLabel ∈ scope) (hl : label ∈ scope)
    (hp : ∀ p, parentLabel = some p → p ∈ scope) :
    Built.Closed scope ⟨correlated actionLabel label parentLabel, []⟩ := by
  cases parentLabel with
  | none => exact ⟨rfl, ⟨hl, ha⟩, hl, trivial⟩
  | some parentLabel => exact ⟨rfl, ⟨hl, hp _ rfl⟩, trivial⟩

mutual
theorem closed_buildMatchExists {table actionLabel : String} {parentLabel : Option String}
    {m : PortMatch} {idPath : String} {scope : List String} {b : Built}
    (hb : buildMatchExists table actionLabel parentLabel idPath m = .ok b)
    (ha : actionLabel ∈ scope) (hp : ∀ p, parentLabel = some p → p ∈ scope) : b.Closed scope := by
  obtain ⟨_, nested, hnested, rfl⟩ := buildMatchExists_ok_iff.mp hb
  have hl : snake "p" idPath ∈ snake "p" idPath :: scope := List.mem_cons_self
  have hchildren : nested.Closed (snake "p" idPath :: scope) := by
    cases m with
    | mk _ _ _ _ _ _ _ children => exact closed_buildChildren hnested ha
  have hinner : (innerClauses actionLabel parentLabel idPath m nested).Closed
      (snake "p" idPath :: scope) := by
    refine ((closed_correlated (List.mem_cons_of_mem _ ha) hl fun p h =>
      List.mem_cons_of_mem _ (hp p h)).append (.concat fun c hc => ?_)).append
      (closed_descriptors hl _ _) |>.append hchildren
    obtain ⟨f, _, rfl⟩ := List.mem_map.mp hc
    exact closed_structural hl _ f
  refine ⟨?_, ⟨trivial, hinner.mentions⟩, trivial⟩
  show ([] ++ Cond.allKeys _) ++ [] = _
  rw [List.nil_append, List.append_nil, hinner.keys]
  rfl

theorem closed_buildChildren {table actionLabel : String} {ms : List PortMatch} {idPath : String}
    {i : Nat} {scope : List String} {b : Built}
    (hb : buildChildren table actionLabel (snake "p" idPath) idPath i ms = .ok b)
    (ha : actionLabel ∈ scope) : b.Closed (snake "p" idPath :: scope) := by
  cases ms with
  | nil =>
    cases hb
    exact .empty
  | cons m ms =>
    obtain ⟨first, others, hfirst, hothers, rfl⟩ := buildChildren_cons_ok_iff.mp hb
    refine (closed_buildMatchExists hfirst (List.mem_cons_of_mem _ ha) fun p h => ?_).append
      (closed_buildChildren hothers ha)
    cases h
    exact List.mem_cons_self
end

theorem closed_buildMatches {table idPath : String} {ms : List PortMatch} {i : Nat} {b : Built}
    (hb : buildMatches table "a" idPath i ms = .ok b) : b.Closed ["a"] := by
  induction ms generalizing i b with
  | nil =>
    cases hb
    exact .empty
  | cons m ms ih =>
    obtain ⟨first, others, hfirst, hothers, rfl⟩ := buildMatches_cons_ok_iff.mp hb
    exact (closed_buildMatchExists hfirst (List.mem_singleton_self _) nofun).append (ih hothers)

theorem closed_rootCount {table key : String} {extra : Clause} {n : Int}
    (hextra : extra = nonNullablePort ∨ extra = structurePort) :
    (rootCountSubquery table "a" extra key n).Closed ["a"] := by
  have hpc : "pc" ∈ ["pc", "a"] := by simp
  have ha : "a" ∈ ["pc", "a"] := by simp
  rcases hextra with rfl | rfl
  · exact ⟨rfl, ⟨trivial, ⟨⟨hpc, ha⟩, hpc, ⟨hpc, trivial⟩, trivial⟩, trivial⟩, trivial⟩
  · exact ⟨rfl, ⟨trivial, ⟨⟨hpc, ha⟩, hpc, ⟨hpc, trivial⟩, trivial⟩, trivial⟩, trivial⟩

theorem closed_portDemandClauses {i : Nat} {d : PortDemand} {b : Built}
    (hb : portDemandClauses i d = .ok b) : b.Closed ["a"] := by
  obtain ⟨table, found, _, hfound, rfl⟩ := portDemandClauses_ok_iff.mp hb
  refine (((closed_buildMatches hfound).append (.whereSet fun n => ?_)).append
    (.whereSet fun n => ?_)).append (.whereSet fun n => ?_)
  · exact ⟨rfl, ⟨List.mem_singleton_self _, trivial⟩, trivial⟩
  · exact closed_rootCount (.inl rfl)
  · exact closed_rootCount (.inr rfl)

theorem closed_actionColumn (pre tag column : String) (value : SqlValue) :
    (actionColumn pre tag column value).Closed ["a"] :=
  ⟨rfl, ⟨List.mem_singleton_self _, trivial⟩, trivial⟩

theorem closed_appClause (pre app : String) : (appClause pre app).Closed ["a"] :=
  ⟨rfl, ⟨List.mem_singleton_self _, trivial, trivial, ⟨trivial, trivial⟩, trivial⟩, trivial⟩

theorem closed_protocolClause (pre : String) (i : Nat) (name : String) :
    (protocolClause pre i name).Closed ["a"] := by
  refine ⟨rfl, ?_, trivial⟩
  simp [Cond.Scoped, Cond.ScopedAll, Source.Scoped, Source.aliases, Term.Scoped]

theorem closed_demandConditions {pre : String} {d : ActionDemandInput} {b : Built}
    (hb : demandConditions d pre = .ok b) : b.Closed ["a"] := by
  have hcolumn := fun tag column value => closed_actionColumn pre tag column value
  rcases demandConditions_ok_iff.mp hb with ⟨hash, _, rfl⟩ | ⟨_, args, returns, ha, hr, rfl⟩
  · exact hcolumn _ _ _
  · refine .append (.append (.append (.append (.append (.append (.append (.append (.append (.append
      (.append ?_ ?_) ?_) ?_) (closed_buildMatches ha)) (closed_buildMatches hr)) ?_) ?_)
      (.concat fun c hc => ?_)) ?_) ?_) ?_
    case refine_7 =>
      obtain ⟨p, _, rfl⟩ := List.mem_map.mp hc
      exact closed_protocolClause _ _ _
    case refine_2 => exact .whereSet fun app => closed_appClause pre app
    all_goals exact .whereSet fun _ => hcolumn _ _ _

/-! ## The parameters of a demand -/

theorem nodup_append_of {P : String → Prop} {xs ys : List String} (hx : xs.Nodup) (hy : ys.Nodup)
    (hxP : ∀ key ∈ xs, P key) (hyP : ∀ key ∈ ys, ¬ P key) : (xs ++ ys).Nodup := by
  refine List.nodup_append.mpr ⟨hx, hy, ?_⟩
  rintro key hkey key' hkey' rfl
  exact hyP key hkey' (hxP key hkey)

theorem names_buildMatches {table idPath : String} {ms : List PortMatch} {i : Nat} {b : Built}
    (hb : buildMatches table "a" idPath i ms = .ok b) :
    b.names.Nodup ∧ ∀ key ∈ b.names, ∃ j, i ≤ j ∧ Under (snake idPath (toString j)) key := by
  induction ms generalizing i b with
  | nil =>
    cases hb
    exact ⟨.nil, by simp [Built.names]⟩
  | cons m ms ih =>
    obtain ⟨first, others, hfirst, hothers, rfl⟩ := buildMatches_cons_ok_iff.mp hb
    obtain ⟨hnodup, hunder⟩ := names_buildMatchExists hfirst
    obtain ⟨hnodup', hunder'⟩ := ih hothers
    rw [Built.names_append]
    constructor
    · refine nodup_append_of hnodup hnodup' hunder fun key hkey h => ?_
      obtain ⟨j, hj, hother⟩ := hunder' key hkey
      have := h.child_inj hother
      omega
    · intro key hkey
      rcases List.mem_append.mp hkey with hkey | hkey
      · exact ⟨i, le_rfl, hunder key hkey⟩
      · obtain ⟨j, hj, hother⟩ := hunder' key hkey
        exact ⟨j, by omega, hother⟩

theorem names_whereSet {α : Type} {value : Option α} {build : α → Built} {key : String}
    (h : ∀ x, (build x).names = [key]) : (whereSet value build).names <+ [key] := by
  cases value with
  | none => exact List.nil_sublist _
  | some x =>
    rw [show whereSet (some x) build = build x from rfl, h x]

/-- A word that is no number. -/
def plainWord (w : List Char) : Bool := w.any fun c => !c.isDigit

theorem plainWord_numeral (n : Nat) : plainWord (numeral n) = false := by
  rw [plainWord, List.any_eq_false]
  intro c hc
  rw [isDigit_of_mem_numeral hc]
  simp

/-- What a parameter of a port demand begins with. -/
def openings : List (List (List Char)) :=
  tags.map words ++ [words "force_length", words "force_non_nullable", words "force_structure"]

/-- A parameter of the port demand in this place. -/
def OfDemand (i : Nat) (key : String) : Prop :=
  ∃ opening ∈ openings, ∃ rest, words key = opening ++ numeral i :: rest

theorem OfDemand.inj {i j : Nat} {key : String} (hi : OfDemand i key) (hj : OfDemand j key) :
    i = j := by
  have hplain : ∀ opening ∈ openings, ∀ w ∈ opening, plainWord w = true := by decide
  obtain ⟨opening, ho, rest, hi⟩ := hi
  obtain ⟨opening', ho', rest', hj⟩ := hj
  rw [hi] at hj
  obtain ⟨_, hrest⟩ := word_append (hplain _ ho) (hplain _ ho') (by simp [plainWord_numeral])
    (by simp [plainWord_numeral]) hj
  exact numeral_inj.mp (List.cons.inj hrest).1

theorem Under.ofDemand {i j : Nat} {key : String}
    (h : Under (snake (toString i) (toString j)) key) : OfDemand i key := by
  obtain ⟨tag, htag, path, hwords⟩ := h
  refine ⟨words tag, List.mem_append_left _ (List.mem_map_of_mem htag),
    words (toString j) ++ path.map numeral, ?_⟩
  rw [hwords, words_snake, words_toString]
  simp

/-- The parameters of one demand. -/
theorem names_portDemandClauses {i : Nat} {d : PortDemand} {b : Built}
    (hb : portDemandClauses i d = .ok b) : b.names.Nodup ∧ ∀ key ∈ b.names, OfDemand i key := by
  obtain ⟨table, found, _, hfound, rfl⟩ := portDemandClauses_ok_iff.mp hb
  obtain ⟨hnodup, hunder⟩ := names_buildMatches hfound
  have hforced : ∀ a b c : Built,
      a.names <+ [snake "force_length" (toString i)] →
      b.names <+ [snake "force_non_nullable" (toString i)] →
      c.names <+ [snake "force_structure" (toString i)] →
      (a.names ++ (b.names ++ c.names)) <+ ["force_length", "force_non_nullable",
        "force_structure"].map (snake · (toString i)) :=
    fun a b c ha hb hc => ha.append (hb.append hc)
  have hsub : ((demandClauses table i d found).names) <+ found.names ++
      ["force_length", "force_non_nullable", "force_structure"].map (snake · (toString i)) := by
    simp only [demandClauses, Built.names_append, List.append_assoc]
    exact (List.Sublist.refl _).append (hforced _ _ _ (names_whereSet fun _ => rfl)
      (names_whereSet fun _ => rfl) (names_whereSet fun _ => rfl))
  have hforce : ∀ key ∈ ["force_length", "force_non_nullable", "force_structure"].map
      (snake · (toString i)), ∃ opening ∈ [words "force_length", words "force_non_nullable",
        words "force_structure"], words key = opening ++ [numeral i] := by
    intro key hkey
    obtain ⟨tag, htag, rfl⟩ := List.mem_map.mp hkey
    refine ⟨words tag, List.mem_map_of_mem htag, ?_⟩
    rw [words_snake, words_toString]
  constructor
  · have htags : ∀ tag ∈ tags, some tag.toList ≠ some "force".toList := by decide
    have hopen : ∀ opening ∈ [words "force_length", words "force_non_nullable",
        words "force_structure"], opening.head? = some "force".toList := by decide
    refine List.Nodup.sublist hsub (nodup_append_of (P := fun key =>
      (words key).head? ≠ some "force".toList) hnodup ?_ ?_ ?_)
    · exact List.Nodup.map (fun _ _ h => snake_left_inj.mp h) (by decide)
    · intro key hkey
      obtain ⟨j, _, tag, htag, path, hwords⟩ := hunder key hkey
      rw [hwords, words_of_mem_tags htag]
      exact htags tag htag
    · intro key hkey hne
      obtain ⟨opening, hopening, hwords⟩ := hforce key hkey
      rw [hwords, List.head?_append, hopen opening hopening] at hne
      exact hne rfl
  · intro key hkey
    rcases List.mem_append.mp (hsub.subset hkey) with hkey | hkey
    · obtain ⟨j, _, h⟩ := hunder key hkey
      exact h.ofDemand
    · obtain ⟨opening, hopening, hwords⟩ := hforce key hkey
      exact ⟨opening, List.mem_append_right _ hopening, [], hwords⟩

/-! ## The statement of port demands -/

theorem allPortDemandClauses_cons_ok_iff {i : Nat} {d : PortDemand} {ds : List PortDemand}
    {b : Built} :
    allPortDemandClauses i (d :: ds) = .ok b ↔ ∃ first others, portDemandClauses i d = .ok first ∧
      allPortDemandClauses (i + 1) ds = .ok others ∧ first ++ others = b := by
  simp only [allPortDemandClauses, bind_ok_iff, pure_ok_iff, exists_and_left]

theorem names_allPortDemandClauses {i : Nat} {ds : List PortDemand} {b : Built}
    (hb : allPortDemandClauses i ds = .ok b) :
    b.names.Nodup ∧ ∀ key ∈ b.names, ∃ j, i ≤ j ∧ OfDemand j key := by
  induction ds generalizing i b with
  | nil =>
    cases hb
    exact ⟨.nil, by simp [Built.names]⟩
  | cons d ds ih =>
    obtain ⟨first, others, hfirst, hothers, rfl⟩ := allPortDemandClauses_cons_ok_iff.mp hb
    obtain ⟨hnodup, hof⟩ := names_portDemandClauses hfirst
    obtain ⟨hnodup', hof'⟩ := ih hothers
    rw [Built.names_append]
    constructor
    · refine nodup_append_of hnodup hnodup' hof fun key hkey h => ?_
      obtain ⟨j, hj, hother⟩ := hof' key hkey
      have := h.inj hother
      omega
    · intro key hkey
      rcases List.mem_append.mp hkey with hkey | hkey
      · exact ⟨i, le_rfl, hof key hkey⟩
      · obtain ⟨j, hj, hother⟩ := hof' key hkey
        exact ⟨j, by omega, hother⟩

theorem closed_allPortDemandClauses {i : Nat} {ds : List PortDemand} {b : Built}
    (hb : allPortDemandClauses i ds = .ok b) : b.Closed ["a"] := by
  induction ds generalizing i b with
  | nil =>
    cases hb
    exact .empty
  | cons d ds ih =>
    obtain ⟨first, others, hfirst, hothers, rfl⟩ := allPortDemandClauses_cons_ok_iff.mp hb
    exact (closed_portDemandClauses hfirst).append (ih hothers)

/-- The name of the organization is no demand's. -/
theorem OfDemand.ne_org {i : Nat} {key : String} (h : OfDemand i key) : key ≠ "org" := by
  rintro rfl
  obtain ⟨opening, hopening, rest, hwords⟩ := h
  have hlength := congrArg List.length hwords
  have horg : (words "org").length = 1 := by decide
  have hpos : ∀ opening ∈ openings, 0 < opening.length := by decide
  have := hpos opening hopening
  rw [horg, List.length_append, List.length_cons] at hlength
  omega

theorem closed_organization {org : Option SqlValue} :
    (whereSet org organizationClause).Closed ["a"] :=
  .whereSet fun _ => ⟨rfl, ⟨List.mem_singleton_self _, trivial⟩, trivial⟩

theorem portDemandSql_ok_iff {ds : List PortDemand} {org : Option SqlValue} {b : Built} :
    portDemandSql ds org = .ok b ↔ ∃ clauses, allPortDemandClauses 0 ds = .ok clauses ∧
      whereSet org organizationClause ++ clauses = b ∧ b.conditions ≠ [] := by
  unfold portDemandSql
  simp only [bind_ok_iff, requireClauses_ok_iff]

/-- The parameters of the statement have names of their own, and one placeholder each. -/
theorem portDemandSql_closed {ds : List PortDemand} {org : Option SqlValue} {b : Built}
    (hb : portDemandSql ds org = .ok b) : b.names.Nodup ∧ b.Closed ["a"] := by
  obtain ⟨clauses, hclauses, rfl, _⟩ := portDemandSql_ok_iff.mp hb
  have horg : (whereSet org organizationClause).names <+ ["org"] := names_whereSet fun _ => rfl
  constructor
  · rw [Built.names_append]
    refine nodup_append_of (P := (· = "org")) ((List.nodup_singleton _).sublist horg)
      (names_allPortDemandClauses hclauses).1 (fun key hkey => List.mem_singleton.mp (horg.subset hkey))
      fun key hkey => ?_
    obtain ⟨j, _, hof⟩ := (names_allPortDemandClauses hclauses).2 key hkey
    exact hof.ne_org
  · exact closed_organization.append (closed_allPortDemandClauses hclauses)

/-! ## The parameters of an action demand -/

/-- The word of a place. -/
def placeWord (i : Nat) : List Char := 'd' :: numeral i

theorem words_place (i : Nat) : words ("d" ++ toString i) = [placeWord i] := by
  have hlist : ("d" ++ toString i).toList = placeWord i := by simp [placeWord, numeral]
  rw [← hlist]
  refine words_of_plain fun h => ?_
  rw [hlist, placeWord, List.mem_cons] at h
  rcases h with h | h
  · exact absurd h (by decide)
  · exact absurd (isDigit_of_mem_numeral h) (by decide)

/-- No tag of a match is the word of a place. -/
theorem tag_ne_placeWord {tag : String} (h : tag ∈ tags) (i : Nat) : tag.toList ≠ placeWord i := by
  have hother : ∀ tag ∈ tags, (tag.toList.drop 1).any (fun c => !c.isDigit) = true := by decide
  intro heq
  have hany := hother tag h
  rw [heq, placeWord, List.drop_one, List.tail_cons, List.any_eq_true] at hany
  obtain ⟨c, hc, hdigit⟩ := hany
  rw [isDigit_of_mem_numeral hc] at hdigit
  cases hdigit

/-- What may stand before the word of a place: nothing, or the tag of a match. -/
def Opening (opening : List (List Char)) : Prop :=
  opening = [] ∨ ∃ tag ∈ tags, opening = [tag.toList]

/-- A parameter of the action demand in this place, marked by the words behind its place. -/
def Marked (i : Nat) (mark : List (List Char)) (key : String) : Prop :=
  ∃ opening, Opening opening ∧ ∃ path : List Nat,
    words key = opening ++ placeWord i :: (mark ++ path.map numeral)

def OfActionDemand (i : Nat) (key : String) : Prop := ∃ mark, Marked i mark key

/-- The place, and what stands behind it. -/
theorem opening_inj {i j : Nat} {opening opening' rest rest' : List (List Char)}
    (h : Opening opening) (h' : Opening opening')
    (heq : opening ++ placeWord i :: rest = opening' ++ placeWord j :: rest') :
    i = j ∧ rest = rest' := by
  have hplace : placeWord i :: rest = placeWord j :: rest' → i = j ∧ rest = rest' := by
    intro heq
    obtain ⟨hword, hrest⟩ := List.cons.inj heq
    exact ⟨numeral_inj.mp (List.cons.inj hword).2, hrest⟩
  rcases h with rfl | ⟨tag, htag, rfl⟩
  · rcases h' with rfl | ⟨tag', htag', rfl⟩
    · exact hplace heq
    · exact absurd (List.cons.inj heq).1.symm (tag_ne_placeWord htag' i)
  · rcases h' with rfl | ⟨tag', htag', rfl⟩
    · exact absurd (List.cons.inj heq).1 (tag_ne_placeWord htag j)
    · exact hplace (List.cons.inj heq).2

theorem OfActionDemand.inj {i j : Nat} {key : String} (hi : OfActionDemand i key)
    (hj : OfActionDemand j key) : i = j := by
  obtain ⟨_, opening, ho, _, hi⟩ := hi
  obtain ⟨_, opening', ho', _, hj⟩ := hj
  exact (opening_inj ho ho' (hi.symm.trans hj)).1

theorem Marked.inj {i : Nat} {mark mark' : List (List Char)} {key : String}
    (hm : ∀ w ∈ mark, plainWord w = true) (hm' : ∀ w ∈ mark', plainWord w = true)
    (h : Marked i mark key) (h' : Marked i mark' key) : mark = mark' := by
  obtain ⟨opening, ho, path, h⟩ := h
  obtain ⟨opening', ho', path', h'⟩ := h'
  have hstop : ∀ path : List Nat, ∀ w ∈ (path.map numeral).head?, plainWord w = false := by
    intro path w hw
    obtain ⟨n, _, rfl⟩ := List.mem_map.mp (List.mem_of_mem_head? hw)
    exact plainWord_numeral n
  exact (word_append hm hm' (hstop path) (hstop path')
    (opening_inj ho ho' (h.symm.trans h')).2).1

theorem marked_tag {i : Nat} (tag : String) :
    Marked i (words tag) (snake ("d" ++ toString i) tag) := by
  refine ⟨[], .inl rfl, [], ?_⟩
  rw [words_snake, words_place]
  simp

theorem Under.marked {i j : Nat} {tag key : String}
    (h : Under (snake (snake ("d" ++ toString i) tag) (toString j)) key) :
    Marked i (words tag) key := by
  obtain ⟨tag', htag', path, hwords⟩ := h
  refine ⟨[tag'.toList], .inr ⟨tag', htag', rfl⟩, j :: path, ?_⟩
  rw [hwords, words_of_mem_tags htag', words_snake, words_snake, words_place, words_toString]
  simp

theorem marked_protocol {i j : Nat} :
    Marked i (words "protocol") (snake (snake ("d" ++ toString i) "protocol") (toString j)) := by
  refine ⟨[], .inl rfl, [j], ?_⟩
  rw [words_snake, words_snake, words_place, words_toString]
  simp

/-- Parameters with names of their own, each marked by one of these words. -/
structure Marks (i : Nat) (marks : List (List (List Char))) (names : List String) : Prop where
  nodup : names.Nodup
  marked : ∀ key ∈ names, ∃ mark ∈ marks, Marked i mark key

/-- Parts that are marked by different words. -/
theorem Marks.append {i : Nat} {marks marks' : List (List (List Char))} {names names' : List String}
    (h : Marks i marks names) (h' : Marks i marks' names')
    (hplain : ∀ mark ∈ marks ++ marks', ∀ w ∈ mark, plainWord w = true)
    (hother : ∀ mark ∈ marks, mark ∉ marks') : Marks i (marks ++ marks') (names ++ names') where
  nodup := by
    refine nodup_append_of h.nodup h'.nodup h.marked ?_
    rintro key hkey ⟨mark, hmark, hm⟩
    obtain ⟨mark', hmark', hm'⟩ := h'.marked key hkey
    have heq : mark = mark' := Marked.inj (hplain _ (List.mem_append_left _ hmark))
      (hplain _ (List.mem_append_right _ hmark')) hm hm'
    rw [heq] at hmark
    exact hother _ hmark hmark'
  marked key hkey := by
    rcases List.mem_append.mp hkey with hkey | hkey
    · obtain ⟨mark, hmark, hm⟩ := h.marked key hkey
      exact ⟨mark, List.mem_append_left _ hmark, hm⟩
    · obtain ⟨mark, hmark, hm⟩ := h'.marked key hkey
      exact ⟨mark, List.mem_append_right _ hmark, hm⟩

theorem marks_protocolClauses {i : Nat} (protocols : List String) :
    Marks i [words "protocol"] (protocolClauses ("d" ++ toString i) protocols).names := by
  have hnames : (protocolClauses ("d" ++ toString i) protocols).names =
      (List.range' 0 protocols.length).map fun j =>
        snake (snake ("d" ++ toString i) "protocol") (toString j) := by
    rw [protocolClauses, Built.names_concat, List.flatMap_map, ← List.zipIdx_map_snd, List.map_map,
      List.map_eq_flatMap]
    rfl
  rw [hnames]
  constructor
  · refine List.Nodup.map (fun j k h => ?_) List.nodup_range'
    have hwords := eq_of_words h
    simp only [words_snake, words_toString] at hwords
    exact numeral_inj.mp (List.cons.inj (List.append_cancel_left hwords)).1
  · intro key hkey
    obtain ⟨j, _, rfl⟩ := List.mem_map.mp hkey
    exact ⟨_, List.mem_singleton_self _, marked_protocol⟩

theorem marks_whereSet {α : Type} {i : Nat} {value : Option α} {build : α → Built} {tag : String}
    (h : ∀ x, (build x).names = [snake ("d" ++ toString i) tag]) :
    Marks i [words tag] (whereSet value build).names := by
  have hsub : (whereSet value build).names <+ [snake ("d" ++ toString i) tag] := names_whereSet h
  refine ⟨(List.nodup_singleton _).sublist hsub, fun key hkey => ?_⟩
  rw [List.mem_singleton.mp (hsub.subset hkey)]
  exact ⟨_, List.mem_singleton_self _, marked_tag tag⟩

theorem marks_buildMatches {i : Nat} {table tag : String} {ms : List PortMatch} {b : Built}
    (hb : buildMatches table "a" (snake ("d" ++ toString i) tag) 0 ms = .ok b) :
    Marks i [words tag] b.names := by
  obtain ⟨hnodup, hunder⟩ := names_buildMatches hb
  refine ⟨hnodup, fun key hkey => ?_⟩
  obtain ⟨j, _, h⟩ := hunder key hkey
  exact ⟨_, List.mem_singleton_self _, h.marked⟩

theorem marks_fieldClauses {i : Nat} {d : ActionDemandInput} {args returns : Built}
    (ha : buildMatches "facade_argport" "a" (snake ("d" ++ toString i) "arg") 0 d.argMatches =
      .ok args)
    (hr : buildMatches "facade_returnport" "a" (snake ("d" ++ toString i) "ret") 0
      d.returnMatches = .ok returns) :
    Marks i (["key", "app", "version", "name", "arg", "ret", "force_arg_length",
      "force_return_length", "protocol", "pure", "idempotent", "stateful"].map words)
      (fieldClauses ("d" ++ toString i) d args returns).names := by
  simp only [fieldClauses, Built.names_append]
  show Marks i ([words "key"] ++ [words "app"] ++ [words "version"] ++ [words "name"] ++
    [words "arg"] ++ [words "ret"] ++ [words "force_arg_length"] ++ [words "force_return_length"] ++
    [words "protocol"] ++ [words "pure"] ++ [words "idempotent"] ++ [words "stateful"]) _
  refine .append ?_ (marks_whereSet fun _ => rfl) (by decide) (by decide)
  refine .append ?_ (marks_whereSet fun _ => rfl) (by decide) (by decide)
  refine .append ?_ (marks_whereSet fun _ => rfl) (by decide) (by decide)
  refine .append ?_ (marks_protocolClauses _) (by decide) (by decide)
  refine .append ?_ (marks_whereSet fun _ => rfl) (by decide) (by decide)
  refine .append ?_ (marks_whereSet fun _ => rfl) (by decide) (by decide)
  refine .append ?_ (marks_buildMatches hr) (by decide) (by decide)
  refine .append ?_ (marks_buildMatches ha) (by decide) (by decide)
  refine .append ?_ (marks_whereSet fun _ => rfl) (by decide) (by decide)
  refine .append ?_ (marks_whereSet fun _ => rfl) (by decide) (by decide)
  exact .append (marks_whereSet fun _ => rfl) (marks_whereSet fun _ => rfl) (by decide) (by decide)

/-- The parameters of one demand. -/
theorem names_demandConditions {i : Nat} {d : ActionDemandInput} {b : Built}
    (hb : demandConditions d ("d" ++ toString i) = .ok b) :
    b.names.Nodup ∧ ∀ key ∈ b.names, OfActionDemand i key := by
  rcases demandConditions_ok_iff.mp hb with ⟨hash, _, rfl⟩ | ⟨_, args, returns, ha, hr, rfl⟩
  · refine ⟨List.nodup_singleton _, fun key hkey => ?_⟩
    rw [List.mem_singleton.mp hkey]
    exact ⟨_, marked_tag "hash"⟩
  · have hmarks := marks_fieldClauses ha hr
    refine ⟨hmarks.nodup, fun key hkey => ?_⟩
    obtain ⟨mark, _, hm⟩ := hmarks.marked key hkey
    exact ⟨mark, hm⟩

end Managers
end Rekuest
