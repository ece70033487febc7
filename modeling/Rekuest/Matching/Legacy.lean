import Rekuest.Matching.Scanner

/-!
# Rekuest.Matching.Legacy

The legacy scanner against its documented match, and against the full reading of a match tree.

* `PortMatch.Documented`: index, key, kind and identifier of the item and of its children, each
  child in its own place. `PortMatch.FullyRead`: every field that is set, at every level.
* `canonicalItems`: the items that the matches describe and nothing else. The scanner finds a
  child one place behind, so that the foremost child that is asked of is not where it should be.
* `legacy_scanner`: what is selected is what is documented where the children ask nothing.
* `legacy_refusal`: what is selected is fully read where nothing set is left out.
-/

namespace Rekuest
namespace Managers

open Coding Fallible Sql

/-! ## Statements -/

/-- What else a statement may ask of an array. -/
structure Lengths where
  length : Option Int := none
  nonNullable : Option Int := none
  structure_ : Option Int := none

/-- A statement of the scanner over a JSON column. -/
inductive LegacyStatement (ms : List PortMatch) (model : String) : Lengths → String → Built → Prop
  | scan (type : String) (n : Lengths) (b : Built) (htype : type = "args" ∨ type = "returns")
      (h : jsonScanParams ms type n.length n.nonNullable n.structure_ model = .ok b) :
      LegacyStatement ms model n type b
  | states (b : Built) (h : buildStateParams ms model = .ok b) :
      LegacyStatement ms model {} "ports" b

section

variable {pathMatch : String → String → Option Bool} {db : String → List (Row SqlValue)}
  {ms : List PortMatch} {model array : String} {n : Lengths} {b : Built}

/-- The clauses of the lengths, which set no parameter. -/
def lengthClauses (array : String) (n : Lengths) : List Clause :=
  (n.length.map fun l => .eq (.app .arrayLength (.bare array)) (.const (.int l))).toList ++
    (n.nonNullable.map fun l => countItems array "nullable" "false" l).toList ++
    (n.structure_.map fun l => countItems array "kind" "STRUCTURE" l).toList

theorem whereSet_clause {α : Type} {value : Option α} {clause : α → Clause} :
    whereSet value (fun x => ⟨[clause x], []⟩) = ⟨(value.map clause).toList, []⟩ := by
  cases value <;> rfl

theorem Built.append_bare (b : Built) (cs cs' : List Clause) :
    b ++ ⟨cs, []⟩ ++ ⟨cs', []⟩ = b ++ ⟨cs ++ cs', []⟩ := by
  show Built.mk (b.conditions ++ cs ++ cs') (b.assigned ++ [] ++ []) =
    Built.mk (b.conditions ++ (cs ++ cs')) (b.assigned ++ [])
  rw [List.append_assoc, List.append_nil]

/-- The matches pass the guard, and their clauses come first. -/
theorem LegacyStatement.eq_append (h : LegacyStatement ms model n array b) :
    PortMatch.AllSupported ms ∧
      b = buildItemQueries array ms ++ ⟨lengthClauses array n, []⟩ ∧ b.conditions ≠ [] := by
  cases h with
  | scan _ _ _ htype h =>
    obtain ⟨_, hguard, h⟩ := bind_ok_iff.mp h
    obtain ⟨rfl, hne⟩ := requireClauses_ok_iff.mp h
    refine ⟨(rejectUnsupported_ok_iff _ _).mp hguard, ?_, hne⟩
    simp only [whereSet_clause, Built.append_bare, lengthClauses]
  | states _ h =>
    obtain ⟨_, hguard, h⟩ := bind_ok_iff.mp h
    obtain ⟨rfl, hne⟩ := requireClauses_ok_iff.mp h
    refine ⟨(rejectUnsupported_ok_iff _ _).mp hguard, ?_, hne⟩
    show _ = Built.mk (_ ++ []) (_ ++ [])
    rw [List.append_nil, List.append_nil]

/-- Of supported matches there is a statement, unless there are none. -/
theorem exists_statement (hms : ms ≠ []) (hguard : PortMatch.AllSupported ms) :
    LegacyStatement ms model {} "ports" (buildItemQueries "ports" ms) := by
  refine .states _ (bind_ok_iff.mpr ⟨(), (rejectUnsupported_ok_iff _ _).mpr hguard, ?_⟩)
  refine requireClauses_ok_iff.mpr ⟨rfl, ?_⟩
  cases ms with
  | nil => exact absurd rfl hms
  | cons m ms =>
    intro h
    cases h

theorem LegacyStatement.hold_iff (h : LegacyStatement ms model n array b) {row : Row SqlValue}
    {items : List Json} (hrow : row array = some (.json (.arr items))) :
    b.Hold pathMatch db b.params.get? [(model, row)] ↔
      (∀ m ∈ ms, ∃ (place : Nat) (item : Json), items[place]? = some item ∧ m.Scans place item) ∧
        ∀ c ∈ lengthClauses array n, Holds (postgres pathMatch) db b.params.get? [(model, row)] c := by
  obtain ⟨_, rfl, _⟩ := h.eq_append
  have hnames : (buildItemQueries array ms ++ ⟨lengthClauses array n, []⟩).names.Nodup := by
    rw [Built.names_append]
    simpa [Built.names] using names_buildItemQueries array ms
  have hreads := (Built.Reads.append_iff.mp (Built.reads_params hnames)).1
  rw [Built.hold_append, hold_buildItemQueries hrow hreads]
  rfl

theorem LegacyStatement.wellFormed (h : LegacyStatement ms model n array b) :
    Cond.allWellFormed b.conditions = true ↔ ∀ m ∈ ms, m.Constrains := by
  obtain ⟨_, rfl, _⟩ := h.eq_append
  have hlengths : ∀ c ∈ lengthClauses array n, c.wellFormed = true := by
    simp only [lengthClauses, List.mem_append, Option.mem_toList, Option.map_eq_some_iff]
    rintro c ((⟨l, _, rfl⟩ | ⟨l, _, rfl⟩) | ⟨l, _, rfl⟩) <;> rfl
  have hqueries := wellFormed_buildItemQueries array ms
  rw [← hqueries, allWellFormed_iff, allWellFormed_iff, Built.append_conditions]
  simp only [List.mem_append, or_imp, forall_and]
  exact and_iff_left hlengths

end

/-! ## Readings -/

namespace PortMatch

/-- The fields that are compared, where they are set. -/
def setFields (m : PortMatch) : List (String × Option String) :=
  [("key", m.key), ("kind", m.kind.map PortKind.value), ("identifier", m.identifier)]

/-- The item or the child, if there is one, has the fields. -/
def HasFields (x : Option Json) (m : PortMatch) : Prop :=
  ∀ f ∈ m.setFields, ∀ v, f.2 = some v → x.bind (Json.textField f.1) = some v

/-- The documented match: the item is the one in this place, and each child the one in its own. -/
structure Documented (place : Nat) (item : Json) (m : PortMatch) : Prop where
  index : ∀ n, m.at_ = some n → (place : Int) = n
  fields : m.HasFields (some item)
  children : ∀ (j : Nat) (c : PortMatch), m.children[j]? = some c → c.HasFields (item.childAt j)

section

variable (accepts : List MatchDescriptor → Json → Prop)

mutual
/-- The full reading: what is set is equal, at every level, each child in its own place. -/
def FullyRead (place : Nat) (x : Option Json) : PortMatch → Prop
  | m@⟨at_, _, _, _, nullable, dimension, descriptors, children⟩ =>
    (∀ n, at_ = some n → (place : Int) = n ∧ x ≠ none) ∧ m.HasFields x ∧
      (∀ s, dimension = some s → x.bind (Json.textField "dimension") = some s) ∧
      (∀ v, nullable = some v → x.bind (Json.field "nullable") = some (.bool v)) ∧
      (descriptors ≠ [] → ∃ item, x = some item ∧ accepts descriptors item) ∧
      AllFullyRead 0 x children

def AllFullyRead (place : Nat) (x : Option Json) : List PortMatch → Prop
  | [] => True
  | c :: cs => c.FullyRead place (x.bind fun item => item.childAt place) ∧ AllFullyRead (place + 1) x cs
end

mutual
/-- Nothing is set, at any level. -/
def Blank : PortMatch → Prop
  | ⟨at_, key, kind, identifier, nullable, dimension, descriptors, children⟩ =>
    at_ = none ∧ key = none ∧ kind = none ∧ identifier = none ∧ nullable = none ∧
      dimension = none ∧ descriptors = [] ∧ AllBlank children

def AllBlank : List PortMatch → Prop
  | [] => True
  | c :: cs => c.Blank ∧ AllBlank cs
end

end

end PortMatch

/-! ## Canonical items -/

/-- A port with the fields that are asked for. -/
def portOf (ask : String → Option String) : Dict Json :=
  PortMatch.fieldNames.filterMap fun field => (ask field).map fun v => (field, .str v)

/-- The children that are asked for, each behind its own place. -/
def childrenOf (ask : Option Nat → String → Option String) : Nat → List Json
  | 0 => []
  | n + 1 => .obj [] :: (List.range (n + 1)).map fun j => .obj (portOf (ask (some j)))

/-- An item with what is asked for, and nothing else. -/
def itemOf (n : Nat) (ask : Option Nat → String → Option String) : Json :=
  .obj (portOf (ask none) ++ [("children", .arr (childrenOf ask n))])

section

variable {n : Nat} {ask : Option Nat → String → Option String} {field v : String}

theorem get?_fields (names : List String) (f : String → Option String) (rest : Dict Json)
    (field : String) :
    Dict.get? (names.filterMap (fun name => (f name).map fun v => (name, .str v)) ++ rest) field =
      ((if field ∈ names then f field else none).map Json.str).or (rest.get? field) := by
  induction names with
  | nil => simp
  | cons name names ih =>
    by_cases hname : field = name
    · subst hname
      cases hv : f field with
      | none => simp [hv, ih]
      | some v => simp [hv, Dict.get?_cons]
    · cases hv : f name with
      | none => simp [hv, ih, hname]
      | some v => simp [hv, Dict.get?_cons, ih, hname]

/-- A described port has what is asked for, and no other text. -/
theorem textField_portOf (f : String → Option String) :
    (Json.obj (portOf f)).textField field =
      if field ∈ PortMatch.fieldNames then f field else none := by
  have hget := get?_fields PortMatch.fieldNames f [] field
  rw [List.append_nil] at hget
  rw [Json.textField, Json.field, portOf, hget]
  cases hv : (if field ∈ PortMatch.fieldNames then f field else none) <;>
    simp [Json.asText, Dict.get?]

theorem textField_itemOf (hfield : field ≠ "children") :
    (itemOf n ask).textField field =
      if field ∈ PortMatch.fieldNames then ask none field else none := by
  have hrest : Dict.get? [("children", Json.arr (childrenOf ask n))] field = none := by
    rw [Dict.get?_cons, if_neg hfield]
    rfl
  rw [Json.textField, itemOf, Json.field, portOf, get?_fields, hrest]
  cases hv : (if field ∈ PortMatch.fieldNames then ask none field else none) <;>
    simp [Json.asText]

theorem childAt_itemOf (j : Nat) : (itemOf n ask).childAt j = (childrenOf ask n)[j]? := by
  have hnot : "children" ∉ PortMatch.fieldNames := by decide
  rw [Json.childAt, itemOf, Json.field, portOf, get?_fields, if_neg hnot]
  simp [Dict.get?_cons, Json.element]

/-- The scanner finds a child behind its own place. -/
theorem childAt_behind {j : Nat} (hj : j < n) :
    (itemOf n ask).childAt (j + 1) = some (.obj (portOf (ask (some j)))) := by
  rw [childAt_itemOf]
  cases n with
  | zero => cases hj
  | succ n => simp [childrenOf, hj]

/-- In the place of a child stands the one before it. -/
theorem child_before {j : Nat}
    (h : ((itemOf n ask).childAt j).bind (Json.textField field) = some v) :
    ∃ i, j = i + 1 ∧ ask (some i) field = some v := by
  rw [childAt_itemOf] at h
  cases n with
  | zero => cases h
  | succ n =>
    obtain ⟨child, hchild, htext⟩ := Option.bind_eq_some_iff.mp h
    cases j with
    | zero =>
      cases hchild
      cases htext
    | succ i =>
      rw [childrenOf, List.getElem?_cons_succ, List.getElem?_map, Option.map_eq_some_iff] at hchild
      obtain ⟨i', hi, rfl⟩ := hchild
      obtain ⟨_, rfl⟩ := List.getElem?_eq_some_iff.mp hi
      rw [List.getElem_range] at htext
      rw [textField_portOf] at htext
      split at htext
      · exact ⟨i, rfl, htext⟩
      · cases htext

/-- What the matches of one index ask for together. The first that asks for a value has it. -/
def askedAt (ms : List PortMatch) (place : Nat) (slot : Option Nat) (field : String) :
    Option String :=
  ms.findSome? fun m => if m.at_ = some (place : Int) then m.asks slot field else none

/-- The items that are described: one for each index, then one for each match without an index. -/
def canonicalItems (bound n : Nat) (ms : List PortMatch) : List Json :=
  (List.range bound).map (fun place => itemOf n (askedAt ms place)) ++
    (ms.filter fun m => m.at_ = none).map fun m => itemOf n m.asks

/-- Two matches of one index ask for different values, or an index is negative. -/
def Contradictory (ms : List PortMatch) : Prop :=
  (∃ m ∈ ms, ∃ i, m.at_ = some i ∧ i < 0) ∨
    ∃ m ∈ ms, ∃ m' ∈ ms, ∃ i, m.at_ = some i ∧ m'.at_ = some i ∧ ∃ slot field v v',
      m.asks slot field = some v ∧ m'.asks slot field = some v' ∧ v ≠ v'

variable {ms : List PortMatch} {bound : Nat}

theorem scans_itemOf {m : PortMatch} {place : Nat} (hat : ∀ i, m.at_ = some i → (place : Int) = i)
    (hask : ∀ slot field v, m.asks slot field = some v → ask slot field = some v)
    (hn : ∀ j field v, m.asks (some j) field = some v → j < n) :
    m.Scans place (itemOf n ask) := by
  refine ⟨hat, fun field v hv => ?_, fun j field v hv => ?_⟩
  · have hfield := PortMatch.asks_mem hv
    have hne : field ≠ "children" := by
      rintro rfl
      exact absurd hfield (by decide)
    rw [textField_itemOf hne, if_pos hfield]
    exact hask none field v hv
  · rw [childAt_behind (hn j field v hv), Option.bind_some, textField_portOf,
      if_pos (PortMatch.asks_mem hv)]
    exact hask (some j) field v hv

/-- **The scanner selects the canonical items** where the matches do not contradict each other. -/
theorem scans_canonical (hfree : ¬ Contradictory ms)
    (hbound : ∀ m ∈ ms, ∀ i : Nat, m.at_ = some (i : Int) → i < bound)
    (hn : ∀ m ∈ ms, ∀ j field v, m.asks (some j) field = some v → j < n) {m : PortMatch}
    (hm : m ∈ ms) : ∃ (place : Nat) (item : Json),
      (canonicalItems bound n ms)[place]? = some item ∧ m.Scans place item := by
  cases hat : m.at_ with
  | none =>
    have hmem : m ∈ ms.filter fun m => m.at_ = none :=
      List.mem_filter.mpr ⟨hm, decide_eq_true hat⟩
    obtain ⟨k, hk⟩ := List.mem_iff_getElem?.mp hmem
    refine ⟨bound + k, itemOf n m.asks, ?_, scans_itemOf ?_ (fun _ _ _ h => h) (hn m hm)⟩
    · rw [canonicalItems, List.getElem?_append_right (by simp)]
      simp [hk]
    · intro i hi
      rw [hat] at hi
      cases hi
  | some i =>
    have hnonneg : 0 ≤ i := by
      by_contra hneg
      exact hfree (.inl ⟨m, hm, i, hat, by omega⟩)
    obtain ⟨place, rfl⟩ := Int.eq_ofNat_of_zero_le hnonneg
    have hlt := hbound m hm place hat
    refine ⟨place, itemOf n (askedAt ms place), ?_, scans_itemOf ?_ ?_ (hn m hm)⟩
    · rw [canonicalItems, List.getElem?_append_left (by simpa using hlt)]
      simp [hlt]
    · intro i hi
      exact Option.some.inj (hat.symm.trans hi)
    · intro slot field v hv
      -- another match of this index may come first, but asks for the same
      cases hfirst : askedAt ms place slot field with
      | none =>
        have hnone := List.findSome?_eq_none_iff.mp hfirst m hm
        rw [if_pos hat, hv] at hnone
        cases hnone
      | some v' =>
        obtain ⟨m', hm', hv'⟩ := List.exists_of_findSome?_eq_some hfirst
        split at hv'
        · rename_i hat'
          by_contra hne
          exact hfree (.inr ⟨m', hm', m, hm, place, hat', hat, slot, field, v', v, hv', hv,
            fun heq => hne (congrArg some heq)⟩)
        · cases hv'

/-- What the canonical items have is what some match asks for. -/
theorem mem_canonical {item : Json} {place : Nat}
    (h : (canonicalItems bound n ms)[place]? = some item) : ∃ ask, item = itemOf n ask ∧
      ∀ slot field v, ask slot field = some v → ∃ m ∈ ms, m.asks slot field = some v := by
  rcases List.mem_append.mp (List.mem_of_getElem? h) with h | h
  · obtain ⟨place, _, rfl⟩ := List.mem_map.mp h
    refine ⟨_, rfl, fun slot field v hv => ?_⟩
    obtain ⟨m, hm, hv⟩ := List.exists_of_findSome?_eq_some hv
    split at hv
    · exact ⟨m, hm, hv⟩
    · cases hv
  · obtain ⟨m, hm, rfl⟩ := List.mem_map.mp h
    exact ⟨_, rfl, fun slot field v hv => ⟨m, (List.mem_filter.mp hm).1, hv⟩⟩

theorem exists_bound (ms : List PortMatch) :
    ∃ bound, ∀ m ∈ ms, ∀ i : Nat, m.at_ = some (i : Int) → i < bound := by
  induction ms with
  | nil => exact ⟨0, by simp⟩
  | cons m ms ih =>
    obtain ⟨bound, h⟩ := ih
    refine ⟨max bound ((m.at_.getD 0).toNat + 1), fun m' hm' i hi => ?_⟩
    rcases List.mem_cons.mp hm' with rfl | hm'
    · rw [hi]
      simp
    · have := h m' hm' i hi
      omega

theorem exists_children (ms : List PortMatch) :
    ∃ n, ∀ m ∈ ms, ∀ j field v, m.asks (some j) field = some v → j < n := by
  induction ms with
  | nil => exact ⟨0, by simp⟩
  | cons m ms ih =>
    obtain ⟨n, h⟩ := ih
    refine ⟨max n m.children.length, fun m' hm' j field v hv => ?_⟩
    rcases List.mem_cons.mp hm' with rfl | hm'
    · obtain ⟨c, hc, _⟩ := Option.bind_eq_some_iff.mp hv
      have := (List.getElem?_eq_some_iff.mp hc).1
      omega
    · have := h m' hm' j field v hv
      omega

end

/-! ## The documented match -/

namespace PortMatch

/-- What the scanner is documented for: index, key, kind, identifier, and one level of children. -/
structure Coarse (m : PortMatch) : Prop where
  nullable : m.nullable = none
  dimension : m.dimension = none
  descriptors : m.descriptors = []
  children : ∀ c ∈ m.children, ∃ key kind identifier,
    c = { key := key, kind := kind, identifier := identifier }

/-- Nothing empty is asked for, and the children ask for nothing. -/
structure Plain (m : PortMatch) : Prop where
  key : m.key ≠ some ""
  identifier : m.identifier ≠ some ""
  children : ∀ c ∈ m.children, c.key = none ∧ c.kind = none ∧ c.identifier = none

theorem truthy_kind (k : Option PortKind) : truthy (k.map PortKind.value) = k.map PortKind.value := by
  cases k with
  | none => rfl
  | some k =>
    have hne := PortKind.value_ne k
    simp [truthy, Option.filter, hne]

theorem legacyField_of_set {m : PortMatch} {f : String × Option String} (hf : f ∈ m.setFields) :
    m.legacyField f.1 = truthy f.2 := by
  simp only [setFields, List.mem_cons, List.not_mem_nil, or_false] at hf
  rcases hf with rfl | rfl | rfl
  · rfl
  · exact (truthy_kind m.kind).symm
  · rfl

/-- What the scanner asks for is set. -/
theorem set_of_legacyField {m : PortMatch} {field v : String}
    (h : m.legacyField field = some v) : (field, some v) ∈ m.setFields := by
  have hfield := legacyField_mem h
  have hset : ∀ s : Option String, (field, s) ∈ m.setFields → (field, some v) ∈ m.setFields := by
    intro s hs
    rw [legacyField_of_set hs] at h
    obtain rfl : s = some v := (truthy_eq_some.mp h).1
    exact hs
  simp only [fieldNames, List.mem_cons, List.not_mem_nil, or_false] at hfield
  rcases hfield with rfl | rfl | rfl
  · exact hset m.key (by simp [setFields])
  · exact hset (m.kind.map PortKind.value) (by simp [setFields])
  · exact hset m.identifier (by simp [setFields])

theorem HasFields.legacy {x : Option Json} {m : PortMatch} (h : m.HasFields x) {field v : String}
    (hv : m.legacyField field = some v) : x.bind (Json.textField field) = some v :=
  h _ (set_of_legacyField hv) v rfl

/-- Where it asks for nothing empty, the scanner asks for all that is set. -/
theorem hasFields_of_legacy {x : Option Json} {m : PortMatch} (hkey : m.key ≠ some "")
    (hidentifier : m.identifier ≠ some "")
    (h : ∀ field v, m.legacyField field = some v → x.bind (Json.textField field) = some v) :
    m.HasFields x := by
  intro f hf v hv
  refine h f.1 v ?_
  rw [legacyField_of_set hf]
  refine truthy_eq_some.mpr ⟨hv, ?_⟩
  rintro rfl
  simp only [setFields, List.mem_cons, List.not_mem_nil, or_false] at hf
  rcases hf with rfl | rfl | rfl
  · exact hkey hv
  · obtain ⟨k, _, hk⟩ := Option.map_eq_some_iff.mp hv
    exact PortKind.value_ne k hk
  · exact hidentifier hv

theorem Plain.asks_child {m : PortMatch} (h : m.Plain) (j : Nat) (field : String) :
    m.asks (some j) field = none := by
  refine Option.bind_eq_none_iff.mpr fun c hc => Option.eq_none_iff_forall_ne_some.mpr ?_
  intro v hv
  obtain ⟨hkey, hkind, hidentifier⟩ := h.children c (List.mem_of_getElem? hc)
  have hset := set_of_legacyField hv
  simp [setFields, hkey, hkind, hidentifier] at hset

/-- Of plain matches the scanner reads what is documented. -/
theorem Plain.scans_iff {m : PortMatch} (h : m.Plain) {place : Nat} {item : Json} :
    m.Scans place item ↔ m.Documented place item := by
  constructor
  · rintro ⟨hat, hown, _⟩
    refine ⟨hat, hasFields_of_legacy h.key h.identifier hown, fun j c hc => ?_⟩
    obtain ⟨hkey, hkind, hidentifier⟩ := h.children c (List.mem_of_getElem? hc)
    intro f hf v hv
    simp only [setFields, hkey, hkind, hidentifier, Option.map_none, List.mem_cons,
      List.not_mem_nil, or_false] at hf
    rcases hf with rfl | rfl | rfl <;> cases hv
  · intro hdoc
    refine ⟨hdoc.index, fun field v hv => hdoc.fields.legacy hv, fun j field v hv => ?_⟩
    rw [h.asks_child] at hv
    cases hv

end PortMatch

section

variable {ms : List PortMatch} {items : List Json}

/-- Every match finds an item. -/
def Found (sat : PortMatch → Nat → Json → Prop) (ms : List PortMatch) (items : List Json) : Prop :=
  ∀ m ∈ ms, ∃ (place : Nat) (item : Json), items[place]? = some item ∧ sat m place item

/-- Of contradictory matches not every one finds an item, wherever a child is looked for. -/
theorem Contradictory.not_found {sat : PortMatch → Nat → Json → Prop}
    (read : Json → Option Nat → String → Option String)
    (hindex : ∀ m place item, sat m place item → ∀ i, m.at_ = some i → (place : Int) = i)
    (hread : ∀ m place item, sat m place item → ∀ slot field v, m.asks slot field = some v →
      read item slot field = some v)
    (h : Contradictory ms) : ¬ Found sat ms items := by
  intro hfound
  rcases h with ⟨m, hm, i, hat, hneg⟩ | ⟨m, hm, m', hm', i, hat, hat', slot, field, v, v', hv, hv',
    hne⟩
  · obtain ⟨place, item, _, hsat⟩ := hfound m hm
    have := hindex m place item hsat i hat
    omega
  · obtain ⟨place, item, hitem, hsat⟩ := hfound m hm
    obtain ⟨place', item', hitem', hsat'⟩ := hfound m' hm'
    have hplace : place = place' := by
      have h := hindex m place item hsat i hat
      have h' := hindex m' place' item' hsat' i hat'
      omega
    subst hplace
    obtain rfl : item = item' := Option.some.inj (hitem.symm.trans hitem')
    have h := hread m place item hsat slot field v hv
    have h' := hread m' place item hsat' slot field v' hv'
    exact hne (Option.some.inj (h.symm.trans h'))

/-- What an item has in a slot, with the children so many places behind. -/
def readSlot (behind : Nat) (item : Json) : Option Nat → String → Option String
  | none, field => item.textField field
  | some j, field => (item.childAt (j + behind)).bind (Json.textField field)

theorem Contradictory.not_scans (h : Contradictory ms) :
    ¬ Found (fun m place item => m.Scans place item) ms items := by
  refine h.not_found (readSlot 1) (fun m place item hsat => hsat.1) ?_
  intro m place item hsat slot field v hv
  cases slot with
  | none => exact hsat.2.1 field v hv
  | some j => exact hsat.2.2 j field v hv

theorem Contradictory.not_documented (h : Contradictory ms) :
    ¬ Found (fun m place item => m.Documented place item) ms items := by
  refine h.not_found (readSlot 0) (fun m place item hsat => hsat.index) ?_
  intro m place item hsat slot field v hv
  cases slot with
  | none => exact hsat.fields.legacy hv
  | some j =>
    obtain ⟨c, hc, hv⟩ := Option.bind_eq_some_iff.mp hv
    exact (hsat.children j c hc).legacy hv

/-- The matches that are documented for the canonical items are plain: nothing there is empty, and
no child stands in its own place, the foremost first. -/
theorem plain_of_documented (hfree : ¬ Contradictory ms)
    (h : ∀ items, Found (fun m place item => m.Scans place item) ms items →
      Found (fun m place item => m.Documented place item) ms items) : ∀ m ∈ ms, m.Plain := by
  obtain ⟨bound, hbound⟩ := exists_bound ms
  obtain ⟨n, hn⟩ := exists_children ms
  have hdoc := h (canonicalItems bound n ms) fun m hm => scans_canonical hfree hbound hn hm
  have hown : ∀ m ∈ ms, ∀ f ∈ m.setFields, f.2 ≠ some "" := by
    intro m hm f hf hempty
    obtain ⟨place, item, hitem, hm'⟩ := hdoc m hm
    obtain ⟨ask, rfl, hask⟩ := mem_canonical hitem
    have htext : (itemOf n ask).textField f.1 = some "" := hm'.fields f hf "" hempty
    have hne : f.1 ≠ "children" := by
      simp only [PortMatch.setFields, List.mem_cons, List.not_mem_nil, or_false] at hf
      rcases hf with rfl | rfl | rfl <;> simp
    rw [textField_itemOf hne] at htext
    split at htext
    · obtain ⟨m', _, hv⟩ := hask none f.1 "" htext
      exact PortMatch.asks_ne hv rfl
    · cases htext
  have hchild : ∀ (j : Nat), ∀ m ∈ ms, ∀ c, m.children[j]? = some c → ∀ f ∈ c.setFields,
      f.2 = none := by
    intro j
    induction j using Nat.strongRecOn with
    | ind j ih =>
      intro m hm c hc f hf
      refine Option.eq_none_iff_forall_ne_some.mpr fun v hv => ?_
      obtain ⟨place, item, hitem, hm'⟩ := hdoc m hm
      obtain ⟨ask, rfl, hask⟩ := mem_canonical hitem
      obtain ⟨i, rfl, hi⟩ := child_before (hm'.children j c hc f hf v hv)
      obtain ⟨m', hm', hv'⟩ := hask (some i) f.1 v hi
      obtain ⟨c', hc', hv'⟩ := Option.bind_eq_some_iff.mp hv'
      have hnone := ih i (by omega) m' hm' c' hc' _ (PortMatch.set_of_legacyField hv')
      cases hnone
  intro m hm
  refine ⟨fun hkey => hown m hm ("key", m.key) (by simp [PortMatch.setFields]) hkey,
    fun hid => hown m hm ("identifier", m.identifier) (by simp [PortMatch.setFields]) hid,
    fun c hc => ?_⟩
  obtain ⟨j, hj⟩ := List.mem_iff_getElem?.mp hc
  have hnone := hchild j m hm c hj
  refine ⟨hnone ("key", c.key) (by simp [PortMatch.setFields]), ?_,
    hnone ("identifier", c.identifier) (by simp [PortMatch.setFields])⟩
  exact Option.map_eq_none_iff.mp (hnone ("kind", c.kind.map PortKind.value)
    (by simp [PortMatch.setFields]))

variable {pathMatch : String → String → Option Bool} {db : String → List (Row SqlValue)}
  {model : String}

theorem PortMatch.Coarse.supported {m : PortMatch} (h : m.Coarse) : m.Supported := by
  obtain ⟨hnullable, _, hdescriptors, hchildren⟩ := h
  cases m with
  | mk at_ key kind identifier nullable dimension descriptors children =>
    refine ⟨hdescriptors, hnullable, ?_⟩
    have hall : ∀ cs : List PortMatch, (∀ c ∈ cs, ∃ key kind identifier,
        c = { key := key, kind := kind, identifier := identifier }) →
        PortMatch.AllSupported cs := by
      intro cs
      induction cs with
      | nil => exact fun _ => trivial
      | cons c cs ih =>
        intro h
        obtain ⟨key, kind, identifier, rfl⟩ := h c List.mem_cons_self
        exact ⟨⟨rfl, rfl, trivial⟩, ih fun c' hc' => h c' (List.mem_cons_of_mem _ hc')⟩
    exact hall children hchildren

theorem allSupported_iff {ms : List PortMatch} :
    PortMatch.AllSupported ms ↔ ∀ m ∈ ms, m.Supported := by
  induction ms with
  | nil => simp [PortMatch.AllSupported]
  | cons m ms ih => simp [PortMatch.AllSupported, ih]

/-- The documented match: the statement is valid, and selects a row where for every match some item
of the array is as documented. -/
def ImplementsMatch (pathMatch : String → String → Option Bool)
    (db : String → List (Row SqlValue)) (ms : List PortMatch) (model : String) : Prop :=
  ∀ array b, LegacyStatement ms model {} array b → Cond.allWellFormed b.conditions = true ∧
    ∀ (row : Row SqlValue) (items : List Json), row array = some (.json (.arr items)) →
      (b.Hold pathMatch db b.params.get? [(model, row)] ↔
        Found (fun m place item => m.Documented place item) ms items)

/-- Without lengths, the statement selects a row where every match finds an item that passes. -/
theorem LegacyStatement.found_iff {array : String} {b : Built}
    (h : LegacyStatement ms model {} array b) {row : Row SqlValue}
    (hrow : row array = some (.json (.arr items))) :
    b.Hold pathMatch db b.params.get? [(model, row)] ↔
      Found (fun m place item => m.Scans place item) ms items := by
  rw [h.hold_iff hrow]
  exact and_iff_left fun _ hc => absurd hc List.not_mem_nil

/-- A row with these items. -/
def portsRow (items : List Json) : Row SqlValue := fun _ => some (.json (.arr items))

/-- **The legacy scanner and its documented match.** They agree exactly where every match constrains
something, and either the matches contradict each other, or they ask for nothing empty and their
children for nothing at all. -/
theorem legacy_scanner (hms : ∀ m ∈ ms, m.Coarse) :
    ImplementsMatch pathMatch db ms model ↔
      (∀ m ∈ ms, m.Constrains) ∧ (Contradictory ms ∨ ∀ m ∈ ms, m.Plain) := by
  constructor
  · intro h
    by_cases hempty : ms = []
    · subst hempty
      exact ⟨by simp, .inr (by simp)⟩
    · have hstatement : LegacyStatement ms model {} "ports" _ := exists_statement hempty
        (allSupported_iff.mpr fun m hm => (hms m hm).supported)
      obtain ⟨hwell, hrows⟩ := h _ _ hstatement
      refine ⟨hstatement.wellFormed.mp hwell, Classical.or_iff_not_imp_left.mpr fun hfree => ?_⟩
      refine plain_of_documented hfree fun items hfound => ?_
      exact (hrows (portsRow items) items rfl).mp ((hstatement.found_iff rfl).mpr hfound)
  · rintro ⟨hconstrains, hcase⟩ array b hstatement
    refine ⟨hstatement.wellFormed.mpr hconstrains, fun row items hrow => ?_⟩
    rw [hstatement.found_iff hrow]
    rcases hcase with hcontra | hplain
    · exact iff_of_false hcontra.not_scans hcontra.not_documented
    · refine forall₂_congr fun m hm => ?_
      refine exists_congr fun place => exists_congr fun item => and_congr_right fun _ => ?_
      exact (hplain m hm).scans_iff

end

theorem legacy_scanner_keys : ImplementsMatch (fun _ _ => none) (fun _ => [])
    [{ at_ := some 0, key := some "image" }] "facade_shortcut" := by
  refine (legacy_scanner ?_).mpr ⟨?_, .inr ?_⟩
  · intro m hm
    obtain rfl := List.mem_singleton.mp hm
    exact ⟨rfl, rfl, rfl, by simp⟩
  · intro m hm
    obtain rfl := List.mem_singleton.mp hm
    exact .inl (by simp)
  · intro m hm
    obtain rfl := List.mem_singleton.mp hm
    exact ⟨by simp, by simp, by simp⟩

/-- The first child of an item has this key. -/
def firstChildMatch : PortMatch := { children := [{ key := some "x" }] }

def firstChildItem : Json := .obj [("children", .arr [.obj [("key", .str "x")]])]

/-- The scanner looks for the first child in the place of the second. -/
theorem first_child_missed :
    ¬ ImplementsMatch (fun _ _ => none) (fun _ => []) [firstChildMatch] "facade_statedefinition" := by
  intro h
  have hstatement : LegacyStatement [firstChildMatch] "facade_statedefinition" {} "ports" _ :=
    exists_statement (by simp) ⟨⟨rfl, rfl, ⟨rfl, rfl, trivial⟩, trivial⟩, trivial⟩
  have hdoc : Found (fun m place item => m.Documented place item) [firstChildMatch]
      [firstChildItem] := by
    intro m hm
    obtain rfl := List.mem_singleton.mp hm
    refine ⟨0, firstChildItem, rfl, by simp [firstChildMatch], ?_, ?_⟩
    · simp [PortMatch.HasFields, PortMatch.setFields, firstChildMatch]
    · intro j c hc
      cases j with
      | zero =>
        cases hc
        intro f hf v hv
        simp only [PortMatch.setFields, List.mem_cons, List.not_mem_nil, or_false] at hf
        rcases hf with rfl | rfl | rfl <;> cases hv
        rfl
      | succ j => cases hc
  have hhold := ((h _ _ hstatement).2 (portsRow [firstChildItem]) [firstChildItem] rfl).mpr hdoc
  obtain ⟨place, item, hitem, hscans⟩ :=
    (hstatement.found_iff rfl).mp hhold firstChildMatch List.mem_cons_self
  have hplace : place = 0 := by
    have := (List.getElem?_eq_some_iff.mp hitem).1
    simpa using this
  subst hplace
  cases hitem
  have hbehind := hscans.2.2 0 "key" "x" rfl
  cases hbehind

/-! ## The full reading -/

section

variable {accepts : List MatchDescriptor → Json → Prop}

mutual
/-- Of a child that is not there, only what sets nothing is read. -/
theorem blank_of_fullyRead {place : Nat} {m : PortMatch}
    (h : m.FullyRead accepts place none) : m.Blank := by
  cases m with
  | mk at_ key kind identifier nullable dimension descriptors children =>
    obtain ⟨hat, hfields, hdimension, hnullable, hdescriptors, hchildren⟩ := h
    have hnone : ∀ f : String × Option String, f ∈ PortMatch.setFields
        ⟨at_, key, kind, identifier, nullable, dimension, descriptors, children⟩ → f.2 = none := by
      intro f hf
      refine Option.eq_none_iff_forall_ne_some.mpr fun v hv => ?_
      cases hfields f hf v hv
    refine ⟨?_, hnone ("key", key) (by simp [PortMatch.setFields]), ?_,
      hnone ("identifier", identifier) (by simp [PortMatch.setFields]), ?_, ?_, ?_,
      allBlank_of_fullyRead (fun _ => rfl) hchildren⟩
    · exact Option.eq_none_iff_forall_ne_some.mpr fun n hn => (hat n hn).2 rfl
    · exact Option.map_eq_none_iff.mp (hnone ("kind", kind.map PortKind.value)
        (by simp [PortMatch.setFields]))
    · refine Option.eq_none_iff_forall_ne_some.mpr fun v hv => ?_
      cases hnullable v hv
    · refine Option.eq_none_iff_forall_ne_some.mpr fun s hs => ?_
      cases hdimension s hs
    · by_contra hne
      obtain ⟨_, h, _⟩ := hdescriptors hne
      cases h

theorem allBlank_of_fullyRead {place : Nat} {x : Option Json} {ms : List PortMatch}
    (hx : ∀ j, (x.bind fun item => item.childAt j) = none)
    (h : PortMatch.AllFullyRead accepts place x ms) : PortMatch.AllBlank ms := by
  cases ms with
  | nil => trivial
  | cons m ms =>
    obtain ⟨hm, hms⟩ := h
    rw [hx place] at hm
    exact ⟨blank_of_fullyRead hm, allBlank_of_fullyRead hx hms⟩
end

mutual
theorem PortMatch.Blank.fullyRead {place : Nat} {x : Option Json} {m : PortMatch}
    (h : m.Blank) : m.FullyRead accepts place x := by
  cases m with
  | mk at_ key kind identifier nullable dimension descriptors children =>
    obtain ⟨rfl, rfl, rfl, rfl, rfl, rfl, rfl, hchildren⟩ := h
    refine ⟨by simp, by simp [PortMatch.HasFields, PortMatch.setFields], by simp, by simp, by simp,
      ?_⟩
    exact allFullyRead_of_blank hchildren

theorem allFullyRead_of_blank {place : Nat} {x : Option Json} {ms : List PortMatch}
    (h : PortMatch.AllBlank ms) : PortMatch.AllFullyRead accepts place x ms := by
  cases ms with
  | nil => trivial
  | cons m ms => exact ⟨h.1.fullyRead, allFullyRead_of_blank h.2⟩
end

theorem PortMatch.FullyRead.documented {m : PortMatch} {place : Nat} {item : Json}
    (h : m.FullyRead accepts place (some item)) : m.Documented place item := by
  cases m with
  | mk at_ key kind identifier nullable dimension descriptors children =>
    obtain ⟨hat, hfields, _, _, _, hchildren⟩ := h
    have hall : ∀ (cs : List PortMatch) (start : Nat),
        PortMatch.AllFullyRead accepts start (some item) cs →
        ∀ (j : Nat) (c : PortMatch), cs[j]? = some c → c.HasFields (item.childAt (start + j)) := by
      intro cs
      induction cs with
      | nil =>
        intro _ _ j c hc
        cases hc
      | cons c cs ih =>
        intro start h j c' hc'
        obtain ⟨hc, hcs⟩ := h
        cases j with
        | zero =>
          cases hc'
          cases c with
          | mk _ _ _ _ _ _ _ _ => exact hc.2.1
        | succ j =>
          have := ih (start + 1) hcs j c' hc'
          rwa [Nat.add_right_comm] at this
    refine ⟨fun n hn => (hat n hn).1, hfields, fun j c hc => ?_⟩
    have := hall children 0 hchildren j c hc
    rwa [Nat.zero_add] at this

/-- Nothing that is set is left out: no dimension, nothing empty, and nothing below the match. -/
structure PortMatch.Expressible (m : PortMatch) : Prop where
  key : m.key ≠ some ""
  identifier : m.identifier ≠ some ""
  dimension : m.dimension = none
  children : PortMatch.AllBlank m.children

theorem allBlank_mem {ms : List PortMatch} (h : PortMatch.AllBlank ms) {m : PortMatch}
    (hm : m ∈ ms) : m.Blank := by
  induction ms with
  | nil => cases hm
  | cons m' ms ih =>
    rcases List.mem_cons.mp hm with rfl | hm
    · exact h.1
    · exact ih h.2 hm

theorem PortMatch.Expressible.plain {m : PortMatch} (h : m.Expressible) : m.Plain := by
  refine ⟨h.key, h.identifier, fun c hc => ?_⟩
  have hblank := allBlank_mem h.children hc
  cases c with
  | mk _ _ _ _ _ _ _ _ => exact ⟨hblank.2.1, hblank.2.2.1, hblank.2.2.2.1⟩

/-- An expressible match that the guard lets pass is fully read where it is documented. -/
theorem PortMatch.Expressible.fullyRead {m : PortMatch} (h : m.Expressible) (hguard : m.Supported)
    {place : Nat} {item : Json} (hdoc : m.Documented place item) :
    m.FullyRead accepts place (some item) := by
  obtain ⟨_, _, hdimension, hchildren⟩ := h
  obtain ⟨hindex, hfields, _⟩ := hdoc
  cases m with
  | mk at_ key kind identifier nullable dimension descriptors children =>
    obtain ⟨hdescriptors, hnullable, _⟩ := hguard
    refine ⟨fun n hn => ⟨hindex n hn, by simp⟩, hfields, ?_, ?_, fun hne => absurd hdescriptors hne,
      allFullyRead_of_blank hchildren⟩
    · intro s hs
      cases hdimension.symm.trans hs
    · intro v hv
      cases hnullable.symm.trans hv

variable {pathMatch : String → String → Option Bool} {db : String → List (Row SqlValue)}
  {ms : List PortMatch} {model : String}

/-- Every row that a statement selects satisfies the full reading of its matches. -/
def ReadsFully (accepts : List MatchDescriptor → Json → Prop)
    (pathMatch : String → String → Option Bool) (db : String → List (Row SqlValue))
    (ms : List PortMatch) (model : String) : Prop :=
  ∀ n array b, LegacyStatement ms model n array b → Cond.allWellFormed b.conditions = true →
    ∀ (row : Row SqlValue) (items : List Json), row array = some (.json (.arr items)) →
      b.Hold pathMatch db b.params.get? [(model, row)] →
        Found (fun m place item => m.FullyRead accepts place (some item)) ms items

/-- Matches that are fully read wherever they pass leave nothing out. -/
theorem expressible_of_fullyRead (hfree : ¬ Contradictory ms)
    (h : ∀ items, Found (fun m place item => m.Scans place item) ms items →
      Found (fun m place item => m.FullyRead accepts place (some item)) ms items) :
    ∀ m ∈ ms, m.Expressible := by
  have hplain : ∀ m ∈ ms, m.Plain := by
    refine plain_of_documented hfree fun items hfound m hm => ?_
    obtain ⟨place, item, hitem, hread⟩ := h items hfound m hm
    exact ⟨place, item, hitem, hread.documented⟩
  obtain ⟨bound, hbound⟩ := exists_bound ms
  have hchildless : ∀ m ∈ ms, ∀ j field v, m.asks (some j) field = some v → j < 0 := by
    intro m hm j field v hv
    rw [(hplain m hm).asks_child] at hv
    cases hv
  have hread := h (canonicalItems bound 0 ms) fun m hm => scans_canonical hfree hbound hchildless hm
  intro m hm
  obtain ⟨hkey, hidentifier, _⟩ := hplain m hm
  obtain ⟨place, item, hitem, hm'⟩ := hread m hm
  obtain ⟨ask, rfl, _⟩ := mem_canonical hitem
  cases m with
  | mk at_ key kind identifier nullable dimension descriptors children =>
    obtain ⟨_, _, hdimension, _, _, hchildren⟩ := hm'
    have hnone : ∀ j, ((some (itemOf 0 ask)).bind fun item => item.childAt j) = none := by
      intro j
      rw [Option.bind_some, childAt_itemOf]
      rfl
    refine ⟨hkey, hidentifier, ?_, allBlank_of_fullyRead hnone hchildren⟩
    refine Option.eq_none_iff_forall_ne_some.mpr fun s hs => ?_
    have htext : (itemOf 0 ask).textField "dimension" = some s := hdimension s hs
    rw [textField_itemOf (by decide), if_neg (by decide)] at htext
    cases htext

/-- **The legacy scanner refuses rather than degrades** exactly where the guard refuses, the
statement is invalid or selects nothing, or nothing that is set is left out. -/
theorem legacy_refusal :
    ReadsFully accepts pathMatch db ms model ↔
      ¬ PortMatch.AllSupported ms ∨ ¬ (∀ m ∈ ms, m.Constrains) ∨ Contradictory ms ∨
        ∀ m ∈ ms, m.Expressible := by
  constructor
  · intro h
    by_contra hcase
    simp only [not_or, not_not] at hcase
    obtain ⟨hguard, hconstrains, hfree, hleft⟩ := hcase
    by_cases hempty : ms = []
    · exact hleft (by simp [hempty])
    · have hstatement : LegacyStatement ms model {} "ports" _ := exists_statement hempty hguard
      have hfull : ∀ items, Found (fun m place item => m.Scans place item) ms items →
          Found (fun m place item => m.FullyRead accepts place (some item)) ms items := by
        intro items hfound
        exact h _ _ _ hstatement (hstatement.wellFormed.mpr hconstrains) (portsRow items) items rfl
          ((hstatement.found_iff rfl).mpr hfound)
      exact hleft (expressible_of_fullyRead hfree hfull)
  · intro hcase n array b hstatement hwell row items hrow hhold
    have hfound : Found (fun m place item => m.Scans place item) ms items :=
      ((hstatement.hold_iff hrow).mp hhold).1
    have hguard := hstatement.eq_append.1
    rcases hcase with hrefused | hinvalid | hcontra | hexpressible
    · exact absurd hguard hrefused
    · exact absurd (hstatement.wellFormed.mp hwell) hinvalid
    · exact absurd hfound hcontra.not_scans
    · intro m hm
      obtain ⟨place, item, hitem, hscans⟩ := hfound m hm
      exact ⟨place, item, hitem, (hexpressible m hm).fullyRead (allSupported_iff.mp hguard m hm)
        ((hexpressible m hm).plain.scans_iff.mp hscans)⟩

/-- A port of this key and of some physical dimension. -/
def dimensionMatch : PortMatch := { key := some "pixel_size", dimension := some "[length]" }

/-- The dimension is neither refused nor compared. -/
theorem dimension_ignored :
    ¬ ReadsFully (fun _ _ => True) (fun _ _ => none) (fun _ => []) [dimensionMatch]
      "facade_statedefinition" := by
  intro h
  have hstatement : LegacyStatement [dimensionMatch] "facade_statedefinition" {} "ports" _ :=
    exists_statement (by simp) ⟨⟨rfl, rfl, trivial⟩, trivial⟩
  have hconstrains : ∀ m ∈ [dimensionMatch], m.Constrains := by
    intro m hm
    obtain rfl := List.mem_singleton.mp hm
    exact .inr ⟨none, "key", "pixel_size", rfl⟩
  -- a port of this key that has no dimension
  have hfound : Found (fun m place item => m.Scans place item) [dimensionMatch]
      [itemOf 0 dimensionMatch.asks] := by
    intro m hm
    obtain rfl := List.mem_singleton.mp hm
    refine ⟨0, _, rfl, scans_itemOf (fun i hi => by cases hi) (fun _ _ _ h => h) ?_⟩
    intro j field v hv
    cases hv
  obtain ⟨place, item, hitem, hread⟩ := h _ _ _ hstatement (hstatement.wellFormed.mpr hconstrains)
    (portsRow _) _ rfl ((hstatement.found_iff rfl).mpr hfound) dimensionMatch List.mem_cons_self
  have hplace : place = 0 := by
    have := (List.getElem?_eq_some_iff.mp hitem).1
    simpa using this
  subst hplace
  cases hitem
  have hdimension := hread.2.2.1 "[length]" rfl
  cases hdimension

end

end Managers
end Rekuest
