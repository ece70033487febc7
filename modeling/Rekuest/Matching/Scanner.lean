import Rekuest.Matching.Parameters

/-!
# Rekuest.Matching.Scanner

What the clauses of the legacy scanner ask of the items of an array.

* `PortMatch.asks`: what a match asks of an item or of a child of it, as the scanner reads it.
* `names_buildItemQueries`: the parameters of the matches have names of their own.
* `PortMatch.Scans`: an item passes. `hold_buildItemQueries`: each match finds an item that passes.
* `PortMatch.Constrains`: a match that leaves no `WHERE` empty.
* `Supported`: what the guard lets pass, at every level.
-/

namespace Rekuest

/-- `item->'children'->n`. -/
def Json.childAt (item : Json) (n : Nat) : Option Json :=
  (item.field "children").bind (Json.element n)

namespace Managers

open Coding Fallible Sql
open scoped List

/-! ## What a match asks -/

theorem PortKind.value_ne (k : PortKind) : k.value ≠ "" := by
  cases k <;> simp [PortKind.value]

theorem truthy_eq_some {s : Option String} {v : String} :
    truthy s = some v ↔ s = some v ∧ v ≠ "" := by
  simp [truthy, Option.filter_eq_some_iff]

namespace PortMatch

/-- The value of a field, where it is truthy. -/
def legacyField (m : PortMatch) (field : String) : Option String :=
  (m.legacyFields.lookup field).join

/-- What is asked of the item, or of a child of it. -/
def asks (m : PortMatch) : Option Nat → String → Option String
  | none, field => m.legacyField field
  | some j, field => m.children[j]?.bind fun c => c.legacyField field

/-- The names of the fields that are compared. -/
def fieldNames : List String := ["key", "kind", "identifier"]

theorem legacyFields_eq (m : PortMatch) :
    m.legacyFields = fieldNames.map fun field => (field, m.legacyField field) := by
  simp [legacyFields, legacyField, fieldNames, List.lookup_cons]

theorem legacyField_mem {m : PortMatch} {field v : String} (h : m.legacyField field = some v) :
    field ∈ fieldNames := by
  unfold legacyField at h
  rw [Option.join_eq_some_iff] at h
  obtain ⟨_, _, hmem, _⟩ := List.lookup_eq_some_iff.mp h
  rw [legacyFields_eq] at hmem
  have hmem' : (field, some v) ∈ fieldNames.map fun field => (field, m.legacyField field) := by
    rw [hmem]
    simp
  obtain ⟨field', hfield, heq⟩ := List.mem_map.mp hmem'
  rw [← (Prod.mk.inj heq).1]
  exact hfield

/-- Nothing empty is asked. -/
theorem legacyField_ne {m : PortMatch} {field v : String} (h : m.legacyField field = some v) :
    v ≠ "" := by
  have hmem := legacyField_mem h
  simp only [fieldNames, List.mem_cons, List.not_mem_nil, or_false] at hmem
  rcases hmem with rfl | rfl | rfl
  · exact (truthy_eq_some.mp h).2
  · obtain ⟨k, _, rfl⟩ := Option.map_eq_some_iff.mp (show m.kind.map PortKind.value = some v from h)
    exact PortKind.value_ne k
  · exact (truthy_eq_some.mp h).2

theorem asks_ne {m : PortMatch} {slot : Option Nat} {field v : String}
    (h : m.asks slot field = some v) : v ≠ "" := by
  cases slot with
  | none => exact legacyField_ne h
  | some j =>
    obtain ⟨c, _, hc⟩ := Option.bind_eq_some_iff.mp h
    exact legacyField_ne hc

theorem asks_mem {m : PortMatch} {slot : Option Nat} {field v : String}
    (h : m.asks slot field = some v) : field ∈ fieldNames := by
  cases slot with
  | none => exact legacyField_mem h
  | some j =>
    obtain ⟨c, _, hc⟩ := Option.bind_eq_some_iff.mp h
    exact legacyField_mem hc

/-- The item in this place passes. A child is compared with the element behind its own place. -/
def Scans (i : Nat) (item : Json) (m : PortMatch) : Prop :=
  (∀ n, m.at_ = some n → (i : Int) = n) ∧
    (∀ field v, m.asks none field = some v → item.textField field = some v) ∧
    ∀ j field v, m.asks (some j) field = some v →
      (item.childAt (j + 1)).bind (Json.textField field) = some v

/-- Something is asked of the item or of its index. -/
def Constrains (m : PortMatch) : Prop :=
  m.at_ ≠ none ∨ ∃ slot field v, m.asks slot field = some v

end PortMatch

/-! ## The parameters -/

section

variable {i : Nat} {key : String}

/-- What the item itself is compared by. -/
def itemTags : List String := "at" :: PortMatch.fieldNames

/-- What a parameter of the scanner begins with. -/
def itemOpenings : List (List (List Char)) :=
  itemTags.map (fun tag => words (snake "arg" tag)) ++ [words "children"]

/-- A parameter of the match in this place. -/
def OfItem (i : Nat) (key : String) : Prop :=
  ∃ opening ∈ itemOpenings, ∃ rest, words key = opening ++ numeral i :: rest

theorem OfItem.inj {i j : Nat} {key : String} (hi : OfItem i key) (hj : OfItem j key) : i = j := by
  have hplain : ∀ opening ∈ itemOpenings, ∀ w ∈ opening, plainWord w = true := by decide
  obtain ⟨opening, ho, rest, hi⟩ := hi
  obtain ⟨opening', ho', rest', hj⟩ := hj
  rw [hi] at hj
  obtain ⟨_, hrest⟩ := word_append (hplain _ ho) (hplain _ ho') (by simp [plainWord_numeral])
    (by simp [plainWord_numeral]) hj
  exact numeral_inj.mp (List.cons.inj hrest).1

/-- Parts in different places that are told apart by their parameters. -/
theorem names_zipIdx {α : Type} {l : List α} {build : α × Nat → Built} (Of : Nat → String → Prop)
    (hinj : ∀ i j key, Of i key → Of j key → i = j)
    (h : ∀ p : α × Nat, (build p).names.Nodup ∧ ∀ key ∈ (build p).names, Of p.2 key) :
    (Built.concat (l.zipIdx.map build)).names.Nodup := by
  rw [Built.names_concat, List.flatMap_map, List.nodup_flatMap]
  refine ⟨fun p _ => (h p).1, ?_⟩
  rw [List.pairwise_iff_getElem]
  intro i j hi hj hlt key hkey hkey'
  have heq := hinj _ _ key ((h _).2 key hkey) ((h _).2 key hkey')
  simp only [List.getElem_zipIdx] at heq
  omega

/-- The fields of an item or of a child, each with a parameter of its own. -/
theorem names_fields (m : PortMatch) (clause : String → Clause) (param : String → String) :
    (Built.concat (m.legacyFields.map fun f => whereSet f.2 fun v =>
      .one (clause f.1) (param f.1) (.text v))).names <+ PortMatch.fieldNames.map param := by
  rw [PortMatch.legacyFields_eq, List.map_map, Built.names_concat, List.flatMap_map]
  exact flatMap_sublist_map fun field _ => names_whereSet fun _ => rfl

theorem names_buildChild {pre : Operand} {valuePath : String} (m : PortMatch) :
    (buildChild m pre valuePath).names.Nodup ∧
      ∀ key ∈ (buildChild m pre valuePath).names, ∃ field ∈ PortMatch.fieldNames,
        key = snake valuePath field := by
  have hsub : (buildChild m pre valuePath).names <+ PortMatch.fieldNames.map (snake valuePath) :=
    names_fields m (fun field => .eq (.app (.textField field) pre) (.param (snake valuePath field)))
      (snake valuePath)
  constructor
  · exact List.Nodup.sublist hsub (List.Nodup.map (fun _ _ h => snake_right_inj.mp h) (by decide))
  · intro key hkey
    obtain ⟨field, hfield, rfl⟩ := List.mem_map.mp (hsub.subset hkey)
    exact ⟨field, hfield, rfl⟩

/-- What the index of the item is compared with. -/
def placeClause (i : Nat) (atValue : Option Int) : Built :=
  whereSet atValue fun n =>
    .one (.eq (.bare "idx") (.param (snake (snake "arg" "at") (toString i))))
      (snake (snake "arg" "at") (toString i)) (.int (n + 1))

def itemClauses (i : Nat) (m : PortMatch) : Built :=
  Built.concat (m.legacyFields.map fun f => whereSet f.2 fun v =>
    .one (.eq (.app (.textField f.1) (.bare "item")) (.param (snake (snake "arg" f.1)
      (toString i)))) (snake (snake "arg" f.1) (toString i)) (.text v))

def childClauses (i : Nat) (m : PortMatch) : Built :=
  Built.concat (m.children.zipIdx.map fun c =>
    buildChild c.1 (.app (.element (c.2 + 1)) (.app (.field "children") (.bare "item")))
      (snake (snake "children" (toString i)) (toString c.2)))

theorem buildSqlForItem_eq (m : PortMatch) (i : Nat) (atValue : Option Int) :
    buildSqlForItem m i atValue "arg" =
      placeClause i atValue ++ itemClauses i m ++ childClauses i m := rfl

theorem names_own (m : PortMatch) (i : Nat) (atValue : Option Int) :
    (placeClause i atValue ++ itemClauses i m).names <+
      itemTags.map fun tag => snake (snake "arg" tag) (toString i) := by
  rw [Built.names_append]
  exact (names_whereSet fun _ => rfl).append (names_fields m
    (fun field => .eq (.app (.textField field) (.bare "item")) (.param (snake (snake "arg" field)
      (toString i)))) fun field => snake (snake "arg" field) (toString i))

/-- A parameter of a child of the match in a place. -/
def OfChild (i j : Nat) (key : String) : Prop :=
  ∃ field ∈ PortMatch.fieldNames,
    key = snake (snake (snake "children" (toString i)) (toString j)) field

theorem OfChild.words_eq {i j : Nat} {key : String} (h : OfChild i j key) :
    ∃ rest, words key = words "children" ++ numeral i :: numeral j :: rest := by
  obtain ⟨field, _, rfl⟩ := h
  exact ⟨words field, by simp⟩

theorem names_children (m : PortMatch) (i : Nat) :
    (childClauses i m).names.Nodup ∧ ∀ key ∈ (childClauses i m).names, ∃ j, OfChild i j key := by
  constructor
  · refine names_zipIdx (OfChild i) (fun j j' key h h' => ?_) fun c => names_buildChild c.1
    obtain ⟨_, hwords⟩ := OfChild.words_eq h
    obtain ⟨_, hwords'⟩ := OfChild.words_eq h'
    have heq := List.append_cancel_left (hwords.symm.trans hwords')
    exact numeral_inj.mp (List.cons.inj (List.cons.inj heq).2).1
  · intro key hkey
    rw [childClauses, Built.names_concat, List.flatMap_map] at hkey
    obtain ⟨c, _, hkey⟩ := List.mem_flatMap.mp hkey
    exact ⟨c.2, (names_buildChild c.1).2 key hkey⟩

/-- The parameters of a match have names of their own, which tell its place. -/
theorem names_buildSqlForItem (m : PortMatch) (i : Nat) (atValue : Option Int) :
    (buildSqlForItem m i atValue "arg").names.Nodup ∧
      ∀ key ∈ (buildSqlForItem m i atValue "arg").names, OfItem i key := by
  rw [buildSqlForItem_eq, Built.names_append]
  have hsub := names_own m i atValue
  obtain ⟨hnodup, hchild⟩ := names_children m i
  have hwords : ∀ tag, words (snake (snake "arg" tag) (toString i)) =
      words (snake "arg" tag) ++ [numeral i] := by
    intro tag
    rw [words_snake, words_toString]
  constructor
  · refine nodup_append_of (P := fun key => (words key).head? = some "arg".toList) ?_ hnodup ?_ ?_
    · refine List.Nodup.sublist hsub (List.Nodup.map (fun a b h => ?_) (by decide))
      exact snake_right_inj.mp (snake_left_inj.mp h)
    · intro key hkey
      obtain ⟨tag, _, rfl⟩ := List.mem_map.mp (hsub.subset hkey)
      rw [words_snake, words_snake]
      rfl
    · intro key hkey harg
      obtain ⟨j, hj⟩ := hchild key hkey
      obtain ⟨rest, hchildren⟩ := hj.words_eq
      rw [hchildren, List.head?_append] at harg
      have hne : (words "children").head? ≠ some "arg".toList := by decide
      have hhead : (words "children").head? = some "children".toList := by decide
      rw [hhead] at harg hne
      exact hne harg
  · intro key hkey
    rcases List.mem_append.mp hkey with hkey | hkey
    · obtain ⟨tag, htag, rfl⟩ := List.mem_map.mp (hsub.subset hkey)
      exact ⟨_, List.mem_append_left _ (List.mem_map_of_mem htag), [], hwords tag⟩
    · obtain ⟨j, hj⟩ := hchild key hkey
      obtain ⟨rest, hchildren⟩ := hj.words_eq
      exact ⟨_, List.mem_append_right _ List.mem_cons_self, _, hchildren⟩

theorem names_buildItemQueries (array : String) (ms : List PortMatch) :
    (buildItemQueries array ms).names.Nodup :=
  names_zipIdx OfItem (fun _ _ _ => OfItem.inj) fun p => names_buildSqlForItem p.1 p.2 p.1.at_

end

/-! ## What the clauses ask -/

section

variable {pathMatch : String → String → Option Bool} {db : String → List (Row SqlValue)}
  {params : String → Option SqlValue} {s : Scope SqlValue} {item : Json} {place : Nat}

/-- The scope of the subquery, at an item. -/
def itemScope (item : Json) (place : Nat) (s : Scope SqlValue) : Scope SqlValue :=
  ("j", fun name =>
    if name = "item" then some (.json item)
    else if some name = some "idx" then some (.int (place + 1 : Nat)) else none) :: s

/-- The operand is this JSON value, or missing. -/
def Operand.Is (pathMatch : String → String → Option Bool) (params : String → Option SqlValue)
    (s : Scope SqlValue) (operand : Operand) (x : Option Json) : Prop :=
  operand.eval (postgres pathMatch) params s = x.map .json

theorem is_item :
    Operand.Is pathMatch params (itemScope item place s) (.bare "item") (some item) := rfl

theorem is_child (n : Nat) : Operand.Is pathMatch params (itemScope item place s)
    (.app (.element n) (.app (.field "children") (.bare "item"))) (item.childAt n) := by
  show ((item.field "children").map SqlValue.json).bind (JsonOp.apply (.element n)) = _
  unfold Json.childAt
  cases item.field "children" <;> rfl

/-- A text field, compared with a parameter. -/
theorem holds_textField {operand : Operand} {x : Option Json} {field key v : String}
    (hx : Operand.Is pathMatch params s operand x) (hparam : params key = some (.text v)) :
    Holds (postgres pathMatch) db params s (.eq (.app (.textField field) operand) (.param key)) ↔
      x.bind (Json.textField field) = some v := by
  have heval : Term.eval (postgres pathMatch) params s (.app (.textField field) operand) =
      (x.bind (Json.textField field)).map SqlValue.text := by
    show (operand.eval (postgres pathMatch) params s).bind (JsonOp.apply (.textField field)) = _
    rw [hx]
    cases x <;> rfl
  rw [holds_eq, heval]
  simp only [Term.eval, hparam, Option.map_eq_some_iff, Option.some.injEq]
  constructor
  · rintro ⟨_, _, ⟨t, ht, rfl⟩, rfl, heq⟩
    rw [ht, of_decide_eq_true heq]
  · intro h
    exact ⟨_, _, ⟨v, h, rfl⟩, rfl, decide_eq_true rfl⟩

/-- The fields of an item or of a child. -/
theorem hold_fields {m : PortMatch} {operand : Operand} {x : Option Json} (param : String → String)
    (hx : Operand.Is pathMatch params s operand x)
    (hreads : (Built.concat (m.legacyFields.map fun f => whereSet f.2 fun v =>
      .one (.eq (.app (.textField f.1) operand) (.param (param f.1))) (param f.1)
        (.text v))).Reads params) :
    (Built.concat (m.legacyFields.map fun f => whereSet f.2 fun v =>
      .one (.eq (.app (.textField f.1) operand) (.param (param f.1))) (param f.1)
        (.text v))).Hold pathMatch db params s ↔
      ∀ field v, m.legacyField field = some v → x.bind (Json.textField field) = some v := by
  rw [PortMatch.legacyFields_eq, List.map_map] at hreads ⊢
  have hone : ∀ field ∈ PortMatch.fieldNames, ∀ v, m.legacyField field = some v →
      ((Built.one (.eq (.app (.textField field) operand) (.param (param field))) (param field)
        (.text v)).Hold pathMatch db params s ↔ x.bind (Json.textField field) = some v) := by
    intro field hfield v hv
    have hset := reads_whereSet.mp (hreads.concat (List.mem_map_of_mem hfield)) v hv
    rw [Built.hold_one]
    exact holds_textField hx (hset _ List.mem_cons_self)
  rw [Built.hold_concat, List.forall_mem_map]
  simp only [Function.comp_apply, hold_whereSet]
  constructor
  · intro h field v hv
    have hfield := PortMatch.legacyField_mem hv
    exact (hone field hfield v hv).mp (h field hfield v hv)
  · intro h field hfield v hv
    exact (hone field hfield v hv).mpr (h field v hv)

theorem hold_placeClause {i : Nat} {atValue : Option Int}
    (hreads : (placeClause i atValue).Reads params) :
    (placeClause i atValue).Hold pathMatch db params (itemScope item place s) ↔
      ∀ n, atValue = some n → (place : Int) = n := by
  unfold placeClause at *
  rw [hold_whereSet]
  refine forall₂_congr fun n hn => ?_
  have hparam : params (snake (snake "arg" "at") (toString i)) = some (.int (n + 1)) :=
    reads_whereSet.mp hreads n hn _ List.mem_cons_self
  have hidx : Term.eval (postgres pathMatch) params (itemScope item place s) (.bare "idx") =
      some (.int (place + 1 : Nat)) := rfl
  rw [Built.hold_one, holds_eq, hidx]
  simp only [Term.eval, hparam, Option.some.injEq, exists_and_left, exists_eq_left']
  show decide (((place + 1 : Nat) : Int) = n + 1) = true ↔ _
  rw [decide_eq_true_iff]
  omega

theorem hold_childClauses {m : PortMatch} {i : Nat} (hreads : (childClauses i m).Reads params) :
    (childClauses i m).Hold pathMatch db params (itemScope item place s) ↔
      ∀ j field v, m.asks (some j) field = some v →
        (item.childAt (j + 1)).bind (Json.textField field) = some v := by
  unfold childClauses at *
  rw [Built.hold_concat, List.forall_mem_map]
  have hchild : ∀ c ∈ m.children.zipIdx, ((buildChild c.1
      (.app (.element (c.2 + 1)) (.app (.field "children") (.bare "item")))
      (snake (snake "children" (toString i)) (toString c.2))).Hold pathMatch db params
        (itemScope item place s) ↔
      ∀ field v, c.1.legacyField field = some v →
        (item.childAt (c.2 + 1)).bind (Json.textField field) = some v) := by
    intro c hc
    exact hold_fields (snake _) (is_child (c.2 + 1)) (hreads.concat (List.mem_map_of_mem hc))
  constructor
  · intro h j field v hv
    obtain ⟨c, hc, hv⟩ := Option.bind_eq_some_iff.mp hv
    have hmem : (c, j) ∈ m.children.zipIdx := List.mem_zipIdx_iff_getElem?.mpr hc
    exact (hchild _ hmem).mp (h _ hmem) field v hv
  · intro h c hmem
    refine (hchild c hmem).mpr fun field v hv => h c.2 field v ?_
    exact Option.bind_eq_some_iff.mpr ⟨c.1, List.mem_zipIdx_iff_getElem?.mp hmem, hv⟩

theorem hold_buildSqlForItem {m : PortMatch} {i : Nat}
    (hreads : (buildSqlForItem m i m.at_ "arg").Reads params) :
    (buildSqlForItem m i m.at_ "arg").Hold pathMatch db params (itemScope item place s) ↔
      m.Scans place item := by
  rw [buildSqlForItem_eq] at hreads ⊢
  simp only [Built.Reads.append_iff] at hreads
  rw [Built.hold_append, Built.hold_append, hold_placeClause hreads.1.1,
    hold_childClauses hreads.2, and_assoc]
  refine and_congr_right fun _ => and_congr_left fun _ => ?_
  exact hold_fields (fun field => snake (snake "arg" field) (toString i)) is_item hreads.1.2

/-- The subquery of a match: some item of the array passes. -/
theorem hold_buildItemQuery {array model : String} {row : Row SqlValue} {items : List Json}
    {m : PortMatch} {i : Nat} (hrow : row array = some (.json (.arr items)))
    (hreads : (buildItemQuery array m i).Reads params) :
    (buildItemQuery array m i).Hold pathMatch db params [(model, row)] ↔
      ∃ (place : Nat) (item : Json), items[place]? = some item ∧ m.Scans place item := by
  have hscopes : Source.scopes (postgres pathMatch) db params [(model, row)]
      (.elements (.bare array) "j" "item" (some "idx")) =
      items.zipIdx.map fun p => itemScope p.1 p.2 [(model, row)] := by
    show (((row array).map (postgres pathMatch).items).getD []).zipIdx.map _ = _
    rw [hrow]
    show (items.map SqlValue.json).zipIdx.map _ = _
    rw [List.zipIdx_map, List.map_map]
    rfl
  simp only [buildItemQuery, Built.Hold, List.mem_singleton, forall_eq, holds_exists, hscopes,
    List.mem_map, exists_exists_and_eq_and]
  constructor
  · rintro ⟨p, hp, h⟩
    exact ⟨p.2, p.1, List.mem_zipIdx_iff_getElem?.mp hp, (hold_buildSqlForItem hreads).mp h⟩
  · rintro ⟨place, item, hitem, h⟩
    exact ⟨(item, place), List.mem_zipIdx_iff_getElem?.mpr hitem,
      (hold_buildSqlForItem hreads).mpr h⟩

/-- **The scanner's clauses.** Each match finds an item of the array that passes. -/
theorem hold_buildItemQueries {array model : String} {row : Row SqlValue} {items : List Json}
    {ms : List PortMatch} (hrow : row array = some (.json (.arr items)))
    (hreads : (buildItemQueries array ms).Reads params) :
    (buildItemQueries array ms).Hold pathMatch db params [(model, row)] ↔
      ∀ m ∈ ms, ∃ (place : Nat) (item : Json), items[place]? = some item ∧ m.Scans place item := by
  unfold buildItemQueries at *
  rw [Built.hold_concat, List.forall_mem_map]
  constructor
  · intro h m hm
    obtain ⟨i, hi⟩ := List.mem_iff_getElem?.mp hm
    have hmem : (m, i) ∈ ms.zipIdx := List.mem_zipIdx_iff_getElem?.mpr hi
    exact (hold_buildItemQuery hrow (hreads.concat (List.mem_map_of_mem hmem))).mp (h _ hmem)
  · intro h p hp
    refine (hold_buildItemQuery hrow (hreads.concat (List.mem_map_of_mem hp))).mpr (h p.1 ?_)
    exact List.mem_of_getElem? (List.mem_zipIdx_iff_getElem?.mp hp)

end

/-! ## When the statement is one -/

theorem forall_whereSet {α : Type} {value : Option α} {build : α → Built} {P : Clause → Prop} :
    (∀ c ∈ (whereSet value build).conditions, P c) ↔
      ∀ x, value = some x → ∀ c ∈ (build x).conditions, P c := by
  cases value with
  | none => simp [whereSet]
  | some x => simp [whereSet]

theorem forall_concat {bs : List Built} {P : Clause → Prop} :
    (∀ c ∈ (Built.concat bs).conditions, P c) ↔ ∀ b ∈ bs, ∀ c ∈ b.conditions, P c := by
  rw [Built.concat_conditions]
  simp only [List.mem_flatMap, forall_exists_index, and_imp]
  exact forall_comm.trans (forall_congr' fun _ => forall_comm)

section

variable {P : Clause → Prop} {p : Prop}

theorem forall_fields (hp : ∀ l r, P (.eq l r) ↔ p) {m : PortMatch} {operand : Operand}
    (param : String → String) :
    (∀ c ∈ (Built.concat (m.legacyFields.map fun f => whereSet f.2 fun v =>
      .one (.eq (.app (.textField f.1) operand) (.param (param f.1))) (param f.1)
        (.text v))).conditions, P c) ↔ ∀ field v, m.legacyField field = some v → p := by
  rw [PortMatch.legacyFields_eq, forall_concat, List.forall_mem_map, List.forall_mem_map]
  simp only [forall_whereSet, Built.one, List.mem_singleton, forall_eq, hp]
  exact ⟨fun h field v hv => h field (PortMatch.legacyField_mem hv) v hv,
    fun h field _ v hv => h field v hv⟩

/-- All conditions of a match are comparisons, and there are some if it constrains anything. -/
theorem forall_buildSqlForItem (hp : ∀ l r, P (.eq l r) ↔ p) {m : PortMatch} {i : Nat} :
    (∀ c ∈ (buildSqlForItem m i m.at_ "arg").conditions, P c) ↔ (m.Constrains → p) := by
  have hplace : (∀ c ∈ (placeClause i m.at_).conditions, P c) ↔ (m.at_ ≠ none → p) := by
    rw [placeClause, forall_whereSet]
    simp only [Built.one, List.mem_singleton, forall_eq, hp]
    rw [Option.ne_none_iff_exists', forall_exists_index]
  have hchild : (∀ c ∈ (childClauses i m).conditions, P c) ↔
      ∀ j field v, m.asks (some j) field = some v → p := by
    rw [childClauses, forall_concat, List.forall_mem_map]
    constructor
    · intro h j field v hv
      obtain ⟨c, hc, hv⟩ := Option.bind_eq_some_iff.mp hv
      exact (forall_fields hp (snake _)).mp (h (c, j) (List.mem_zipIdx_iff_getElem?.mpr hc)) field v hv
    · intro h c hc
      refine (forall_fields hp (snake _)).mpr fun field v hv => h c.2 field v ?_
      exact Option.bind_eq_some_iff.mpr ⟨c.1, List.mem_zipIdx_iff_getElem?.mp hc, hv⟩
  have hitem : (∀ c ∈ (itemClauses i m).conditions, P c) ↔
      ∀ field v, m.asks none field = some v → p :=
    forall_fields hp fun field => snake (snake "arg" field) (toString i)
  rw [buildSqlForItem_eq]
  simp only [Built.append_conditions, List.mem_append, or_imp, forall_and, hplace, hitem, hchild]
  constructor
  · rintro ⟨⟨hat, hown⟩, hchildren⟩ (hset | ⟨slot, field, v, hv⟩)
    · exact hat hset
    · cases slot with
      | none => exact hown field v hv
      | some j => exact hchildren j field v hv
  · intro h
    exact ⟨⟨fun hset => h (.inl hset), fun field v hv => h (.inr ⟨none, field, v, hv⟩)⟩,
      fun j field v hv => h (.inr ⟨some j, field, v, hv⟩)⟩

end

/-- No `WHERE` is left empty where every match constrains something. -/
theorem wellFormed_buildItemQueries (array : String) (ms : List PortMatch) :
    Cond.allWellFormed (buildItemQueries array ms).conditions = true ↔ ∀ m ∈ ms, m.Constrains := by
  have hone : ∀ (m : PortMatch) (i : Nat), (∀ c ∈ (buildItemQuery array m i).conditions,
      Cond.wellFormed c = true) ↔ m.Constrains := by
    intro m i
    have heqs : Cond.allWellFormed (buildSqlForItem m i m.at_ "arg").conditions = true :=
      allWellFormed_iff.mpr ((forall_buildSqlForItem (p := True) fun _ _ => iff_true_intro rfl).mpr
        fun _ => trivial)
    have hempty : (buildSqlForItem m i m.at_ "arg").conditions = [] ↔ ¬ m.Constrains := by
      rw [List.eq_nil_iff_forall_not_mem]
      exact forall_buildSqlForItem fun _ _ => Iff.rfl
    simp only [buildItemQuery, List.mem_singleton, forall_eq, Cond.wellFormed, heqs, Bool.and_true,
      Bool.not_eq_true', List.isEmpty_eq_false_iff, ne_eq, hempty, not_not]
  rw [allWellFormed_iff, buildItemQueries, forall_concat, List.forall_mem_map]
  constructor
  · intro h m hm
    obtain ⟨i, hi⟩ := List.mem_iff_getElem?.mp hm
    exact (hone m i).mp (h (m, i) (List.mem_zipIdx_iff_getElem?.mpr hi))
  · intro h q hq
    exact (hone q.1 q.2).mpr (h q.1 (List.mem_of_getElem? (List.mem_zipIdx_iff_getElem?.mp hq)))

/-! ## What is refused -/

mutual
/-- Neither the match nor one below it has descriptors or asks for `nullable`. -/
def PortMatch.Supported : PortMatch → Prop
  | ⟨_, _, _, _, nullable, _, descriptors, children⟩ =>
    descriptors = [] ∧ nullable = none ∧ PortMatch.AllSupported children

def PortMatch.AllSupported : List PortMatch → Prop
  | [] => True
  | m :: ms => m.Supported ∧ PortMatch.AllSupported ms
end

mutual
theorem rejectUnsupportedMatch_ok_iff (model : String) (m : PortMatch) :
    rejectUnsupportedMatch model m = .ok () ↔ m.Supported := by
  cases m with
  | mk at_ key kind identifier nullable dimension descriptors children =>
    rw [rejectUnsupportedMatch, PortMatch.Supported, ← rejectUnsupported_ok_iff model]
    cases descriptors with
    | cons d ds => simp [throw, throwThe, MonadExceptOf.throw, bind, Except.bind]
    | nil =>
      cases nullable with
      | some v => simp [throw, throwThe, MonadExceptOf.throw, bind, Except.bind]
      | none => simp

/-- The guard looks at every level. -/
theorem rejectUnsupported_ok_iff (model : String) (ms : List PortMatch) :
    rejectUnsupportedLegacyMatchFields model ms = .ok () ↔ PortMatch.AllSupported ms := by
  cases ms with
  | nil => exact iff_of_true rfl trivial
  | cons m ms =>
    rw [rejectUnsupportedLegacyMatchFields, PortMatch.AllSupported, bind_ok_iff,
      ← rejectUnsupportedMatch_ok_iff model, ← rejectUnsupported_ok_iff model]
    exact ⟨fun ⟨_, h, h'⟩ => ⟨h, h'⟩, fun ⟨h, h'⟩ => ⟨(), h, h'⟩⟩
end

end Managers
end Rekuest
