import Mathlib.Data.Nat.Pairing
import Rekuest.Matching.Naming
import Rekuest.Ports

/-!
# Rekuest.Matching.Forest

The relational matcher against the recursive match of the port tree.

* `Port.Matches`: a port, at its index among its siblings, matches a match tree.
* `createdIn`: the ports in the order in which their rows are created. `parent_of_created` and
  `created_of_child`: a row's parent is the row of the parent port, and every child has its row.
* `portRows`: the table of the port rows of several actions, under primary keys of their own.
* `matchesRow_iff_matches`: a row matches where its port does. `relational_matcher`: so the clause of
  a match holds of an action where some root port of it matches.
-/

namespace Rekuest

/-! ## The recursive match -/

section

variable (compiler : List Descriptor → Except Error (Option String))
  (pathMatch : String → String → Option Bool)

/-- The compiled constraint of the port accepts the candidate. No constraint accepts any. -/
def Port.Accepts (port : Port) (candidate : String) : Prop :=
  ∃ compiled, compiler port.descriptors = .ok compiled ∧
    ∀ path, compiled = some path → pathMatch candidate path = some true

/-- Every structural field that is set equals the port's. -/
structure Port.FieldsMatch (index : Nat) (port : Port) (m : Managers.PortMatch) : Prop where
  at_ : ∀ n, m.at_ = some n → (index : Int) = n
  key : ∀ k, m.key = some k → port.key = k
  kind : ∀ k, m.kind = some k → port.kind = k
  identifier : ∀ s, m.identifier = some s → port.identifier = some s
  dimension : ∀ s, m.dimension = some s → port.dimension = some s
  nullable : ∀ b, m.nullable = some b → port.nullable = b

mutual
/-- The port is as the match says, and for every child match some child of it matches. -/
def Port.Matches (index : Nat) (port : Port) : Managers.PortMatch → Prop
  | m@⟨_, _, _, _, _, _, _, children⟩ =>
    port.FieldsMatch index m ∧
      (m.descriptors ≠ [] → port.Accepts compiler pathMatch m.candidateObject) ∧
      Port.ChildrenMatch port children

def Port.ChildrenMatch (port : Port) : List Managers.PortMatch → Prop
  | [] => True
  | m :: ms =>
    (∃ (i : Nat) (child : Port), port.children[i]? = some child ∧ child.Matches i m) ∧
      Port.ChildrenMatch port ms
end

end

/-! ## The order of the rows -/

namespace Ports

/-- The ports in the order in which `createLevels` creates their rows. -/
def createdIn : Nat → Nat → List Pending → List Pending
  | 0, _, _ => []
  | fuel + 1, created, level =>
    if level.isEmpty then []
    else level ++ createdIn fuel (created + level.length) (nextLevel created level)

theorem createLevels_ok {compiler : List Descriptor → Except Error (Option String)}
    {fuel created : Nat} {level : List Pending} {rows : List PortRow}
    (h : createLevels compiler fuel created level = .ok rows) :
    List.Forall₂ (fun p row => Pending.build compiler p = .ok row) (createdIn fuel created level)
      rows := by
  induction fuel generalizing created level rows with
  | zero =>
    cases h
    exact .nil
  | succ fuel ih =>
    unfold createLevels at h
    unfold createdIn
    split at h
    · rename_i hempty
      cases h
      rw [if_pos hempty]
      exact .nil
    · rename_i hempty
      rw [if_neg hempty]
      obtain ⟨first, hfirst, h⟩ := Fallible.bind_ok_iff.mp h
      obtain ⟨rest, hrest, h⟩ := Fallible.bind_ok_iff.mp h
      cases h
      exact List.rel_append (Fallible.mapM_ok_iff.mp hfirst) (ih hrest)

theorem mem_siblings {parent : Option Nat} {path : String} {ports : List Port} {p : Pending} :
    p ∈ siblings parent path ports ↔
      p.parent = parent ∧ p.parentPath = path ∧ ports[p.index]? = some p.port := by
  cases p with
  | mk port parent' index path' =>
    simp only [siblings, List.mem_map, Prod.exists, List.mk_mem_zipIdx_iff_getElem?,
      Pending.mk.injEq]
    constructor
    · rintro ⟨port, i, hport, rfl, rfl, rfl, rfl⟩
      exact ⟨rfl, rfl, hport⟩
    · rintro ⟨rfl, rfl, hport⟩
      exact ⟨port, index, hport, rfl, rfl, rfl, rfl⟩

theorem mem_nextLevel {created : Nat} {level : List Pending} {q : Pending} :
    q ∈ nextLevel created level ↔
      ∃ j p, level[j]? = some p ∧ q ∈ siblings (some (created + j)) p.path p.port.children := by
  simp only [nextLevel, List.mem_flatMap, Prod.exists, List.mk_mem_zipIdx_iff_getElem?]
  constructor
  · rintro ⟨p, j, hp, hq⟩
    exact ⟨j, p, hp, hq⟩
  · rintro ⟨j, p, hp, hq⟩
    exact ⟨p, j, hp, hq⟩

/-- A row is of the first level, or its parent is the row of the parent port. -/
theorem parent_of_created {fuel created : Nat} {level : List Pending} {q : Pending}
    (hq : q ∈ createdIn fuel created level) :
    q ∈ level ∨ ∃ j p, (createdIn fuel created level)[j]? = some p ∧
      q.parent = some (created + j) ∧ p.port.children[q.index]? = some q.port := by
  induction fuel generalizing created level with
  | zero => cases hq
  | succ fuel ih =>
    unfold createdIn at hq ⊢
    split at hq
    · cases hq
    · rename_i hempty
      rw [if_neg hempty]
      rcases List.mem_append.mp hq with hq | hq
      · exact .inl hq
      · right
        rcases ih hq with hq | ⟨j, p, hp, hparent, hport⟩
        · obtain ⟨j, p, hp, hq⟩ := mem_nextLevel.mp hq
          obtain ⟨hparent, _, hport⟩ := mem_siblings.mp hq
          obtain ⟨hj, _⟩ := List.getElem?_eq_some_iff.mp hp
          exact ⟨j, p, by rw [List.getElem?_append_left hj, hp], hparent, hport⟩
        · refine ⟨level.length + j, p, ?_, ?_, hport⟩
          · rw [List.getElem?_append_right (by omega), Nat.add_sub_cancel_left, hp]
          · rw [hparent, Nat.add_assoc]

theorem mem_createdIn_of_mem {fuel created : Nat} {level : List Pending} {q : Pending}
    (hfuel : levels level ≤ fuel) (hq : q ∈ level) : q ∈ createdIn fuel created level := by
  cases level with
  | nil => cases hq
  | cons p level =>
    cases fuel with
    | zero =>
      rw [levels, List.map_cons, depthOf, depth_eq] at hfuel
      omega
    | succ fuel =>
      unfold createdIn
      rw [if_neg (by simp)]
      exact List.mem_append_left _ hq

/-- Every child of a port has its row, below the row of the port. -/
theorem created_of_child {fuel created : Nat} {level : List Pending} {j i : Nat} {p : Pending}
    {child : Port} (hfuel : levels level ≤ fuel)
    (hp : (createdIn fuel created level)[j]? = some p) (hchild : p.port.children[i]? = some child) :
    ∃ q ∈ createdIn fuel created level, q.parent = some (created + j) ∧ q.index = i ∧
      q.port = child := by
  induction fuel generalizing created level j with
  | zero => cases hp
  | succ fuel ih =>
    unfold createdIn at hp ⊢
    split at hp
    · cases hp
    · rename_i hempty
      rw [if_neg hempty]
      have hnext : levels (nextLevel created level) ≤ fuel := by
        rw [levels_nextLevel]
        omega
      by_cases hj : j < level.length
      · rw [List.getElem?_append_left hj] at hp
        have hq : (⟨child, some (created + j), i, p.path⟩ : Pending) ∈ nextLevel created level :=
          mem_nextLevel.mpr ⟨j, p, hp, mem_siblings.mpr ⟨rfl, rfl, hchild⟩⟩
        exact ⟨_, List.mem_append_right _ (mem_createdIn_of_mem hnext hq), rfl, rfl, rfl⟩
      · rw [List.getElem?_append_right (by omega)] at hp
        obtain ⟨q, hq, hparent, hindex, hport⟩ := ih hnext hp
        refine ⟨q, List.mem_append_right _ hq, ?_, hindex, hport⟩
        rw [hparent]
        congr 1
        omega

end Ports

/-! ## The table -/

namespace Managers

open Coding Sql

/-- A port row of an action, as the row `j` of the action, under the primary keys `pk`. -/
def portRow (pk : Nat → Nat) (action : ActionId) (j : Nat) (row : PortRow) : Row SqlValue
  | "id" => some (.int (pk j))
  | "action_id" => some (.int action)
  | "parent_id" => row.parent.map fun p => .int (pk p)
  | "index" => some (.int row.index)
  | "key" => some (.text row.key)
  | "key_path" => some (.text row.keyPath)
  | "kind" => some (.text row.kind.value)
  | "identifier" => row.identifier.map .text
  | "compiled_jsonpath" => row.compiledJsonpath.map .text
  | "nullable" => some (.bool row.nullable)
  | "dimension" => row.dimension.map .text
  | _ => none

/-- The port rows of these actions. -/
def portRows (pk : ActionId → Nat → Nat) (rows : ActionId → List PortRow)
    (actions : List ActionId) : List (Row SqlValue) :=
  actions.flatMap fun a => (rows a).zipIdx.map fun p => portRow (pk a) a p.2 p.1

theorem mem_portRows {pk : ActionId → Nat → Nat} {rows : ActionId → List PortRow}
    {actions : List ActionId} {r : Row SqlValue} : r ∈ portRows pk rows actions ↔
      ∃ a ∈ actions, ∃ j row, (rows a)[j]? = some row ∧ portRow (pk a) a j row = r := by
  simp only [portRows, List.mem_flatMap, List.mem_map, Prod.exists,
    List.mk_mem_zipIdx_iff_getElem?]
  constructor
  · rintro ⟨a, ha, row, j, h⟩
    exact ⟨a, ha, j, row, h⟩
  · rintro ⟨a, ha, j, row, h⟩
    exact ⟨a, ha, row, j, h⟩

section

variable {compiler : List Descriptor → Except Error (Option String)}
  {pathMatch : String → String → Option Bool} {forest : ActionId → List Port}
  {rows : ActionId → List PortRow} {pk : ActionId → Nat → Nat} {actions : List ActionId}

/-- The ports of the forest in the order of their rows. -/
def creations (forest : ActionId → List Port) (a : ActionId) : List Ports.Pending :=
  Ports.createdIn (Ports.depthOf (forest a)) 0 (Ports.siblings none "" (forest a))

/-- The row of a port. -/
def RowOf (compiler : List Descriptor → Except Error (Option String))
    (forest : ActionId → List Port) (pk : ActionId → Nat → Nat) (a : ActionId) (r : Row SqlValue)
    (j : Nat) (p : Ports.Pending) : Prop :=
  (creations forest a)[j]? = some p ∧ ∃ row, p.build compiler = .ok row ∧
    r = portRow (pk a) a j row

/-- What stands in one place of two lists that go together. -/
theorem getElem?_of_forall₂ {α β : Type} {R : α → β → Prop} {xs : List α} {ys : List β}
    (h : List.Forall₂ R xs ys) (j : Nat) :
    (∀ x, xs[j]? = some x → ∃ y, ys[j]? = some y ∧ R x y) ∧
      ∀ y, ys[j]? = some y → ∃ x, xs[j]? = some x ∧ R x y := by
  induction h generalizing j with
  | nil => simp
  | cons hxy _ ih =>
    cases j with
    | zero => simpa using hxy
    | succ j => simpa using ih j

theorem rows_iff {a : ActionId} (hrows : Ports.bulkCreatePorts compiler (forest a) = .ok (rows a))
    {r : Row SqlValue} :
    (∃ j row, (rows a)[j]? = some row ∧ portRow (pk a) a j row = r) ↔
      ∃ j p, RowOf compiler forest pk a r j p := by
  have hall := getElem?_of_forall₂ (Ports.createLevels_ok hrows)
  constructor
  · rintro ⟨j, row, hrow, rfl⟩
    obtain ⟨p, hp, hbuild⟩ := (hall j).2 row hrow
    exact ⟨j, p, hp, row, hbuild, rfl⟩
  · rintro ⟨j, p, hp, row, hbuild, rfl⟩
    obtain ⟨row', hrow, hbuild'⟩ := (hall j).1 p hp
    rw [hbuild] at hbuild'
    cases hbuild'
    exact ⟨j, row, hrow, rfl⟩

theorem mem_portRows_iff
    (hrows : ∀ a, Ports.bulkCreatePorts compiler (forest a) = .ok (rows a)) {r : Row SqlValue} :
    r ∈ portRows pk rows actions ↔ ∃ a ∈ actions, ∃ j p, RowOf compiler forest pk a r j p := by
  rw [mem_portRows]
  exact exists_congr fun a => and_congr_right fun _ => rows_iff (hrows a)

variable {a : ActionId} {r : Row SqlValue} {j : Nat} {p : Ports.Pending}

theorem build_ok {row : PortRow} (h : p.build compiler = .ok row) :
    ∃ compiled, compiler p.port.descriptors = .ok compiled ∧
      row = ⟨p.parent, p.index, p.port.key, p.path, p.port.kind, p.port.identifier, compiled,
        p.port.nullable, p.port.dimension⟩ := by
  obtain ⟨compiled, hcompiled, h⟩ := Fallible.bind_ok_iff.mp h
  exact ⟨compiled, hcompiled, (Fallible.pure_ok_iff.mp h).symm⟩

@[simp] theorem sqlEq_some {v v' : SqlValue} :
    SqlEq (some v) (some v') ↔ SqlValue.equal v v' = true := by
  simp [SqlEq]

@[simp] theorem sqlEq_map_some {α : Type} {x : Option α} {f : α → SqlValue} {v : SqlValue} :
    SqlEq (x.map f) (some v) ↔ ∃ y, x = some y ∧ SqlValue.equal (f y) v = true := by
  simp [SqlEq]

theorem PortKind.value_inj {k k' : PortKind} : k.value = k'.value ↔ k = k' := by
  constructor
  · intro h
    revert h
    cases k <;> cases k' <;> decide
  · rintro rfl
    rfl

/-- The row of a port has its fields. -/
theorem fields_iff (hr : RowOf compiler forest pk a r j p) (m : PortMatch) :
    (∀ f ∈ m.structuralFields, f.Accepts r) ↔ p.port.FieldsMatch p.index m := by
  obtain ⟨_, row, hbuild, rfl⟩ := hr
  obtain ⟨compiled, _, rfl⟩ := build_ok hbuild
  simp only [PortMatch.structuralFields, List.forall_mem_cons, StructuralField.Accepts,
    List.not_mem_nil, false_imp_iff, implies_true, and_true, portRow, Option.map_eq_some_iff,
    forall_exists_index, and_imp, forall_apply_eq_imp_iff₂, sqlEq_some, sqlEq_map_some,
    SqlValue.equal, decide_eq_true_eq, exists_eq_right, PortKind.value_inj]
  exact ⟨fun ⟨h₁, h₂, h₃, h₄, h₅, h₆⟩ => ⟨h₁, h₂, h₃, h₄, h₅, h₆⟩,
    fun h => ⟨h.at_, h.key, h.kind, h.identifier, h.dimension, h.nullable⟩⟩

theorem acceptsPath_iff (hr : RowOf compiler forest pk a r j p) (m : PortMatch) :
    m.AcceptsPath pathMatch r ↔
      (m.descriptors ≠ [] → p.port.Accepts compiler pathMatch m.candidateObject) := by
  obtain ⟨_, row, hbuild, rfl⟩ := hr
  obtain ⟨compiled, hcompiled, rfl⟩ := build_ok hbuild
  simp only [PortMatch.AcceptsPath, Port.Accepts, hcompiled, portRow, Except.ok.injEq,
    exists_eq_left']
  cases compiled <;> simp

/-- The rows below the row of a port are those of its children. -/
theorem below_iff (hrows : ∀ a, Ports.bulkCreatePorts compiler (forest a) = .ok (rows a))
    (hpk : ∀ a i b j, pk a i = pk b j → a = b ∧ i = j) (ha : a ∈ actions)
    (hr : RowOf compiler forest pk a r j p) {T : Row SqlValue → Prop} {T' : Nat → Port → Prop}
    (hT : ∀ r' j' q, RowOf compiler forest pk a r' j' q → (T r' ↔ T' q.index q.port)) :
    (∃ below ∈ portRows pk rows actions, SqlEq (below "parent_id") (r "id") ∧ T below) ↔
      ∃ i child, p.port.children[i]? = some child ∧ T' i child := by
  obtain ⟨hp, row, hbuild, rfl⟩ := hr
  constructor
  · rintro ⟨r', hr', hparent, ht⟩
    obtain ⟨b, hb, j', q, hq⟩ := (mem_portRows_iff hrows).mp hr'
    obtain ⟨hq', row', hbuild', rfl⟩ := id hq
    obtain ⟨_, _, rfl⟩ := build_ok hbuild'
    simp only [portRow, sqlEq_map_some, SqlValue.equal, decide_eq_true_eq] at hparent
    obtain ⟨jp, hjp, hpk'⟩ := hparent
    obtain ⟨rfl, rfl⟩ := hpk _ _ _ _ (Int.ofNat_inj.mp hpk')
    rcases Ports.parent_of_created (List.mem_of_getElem? hq') with hroot | ⟨k, p', hp', hk, hport⟩
    · rw [(Ports.mem_siblings.mp hroot).1] at hjp
      cases hjp
    · rw [hjp, Option.some.injEq, Nat.zero_add] at hk
      subst hk
      rw [show (creations forest b)[jp]? = some p' from hp'] at hp
      cases hp
      exact ⟨q.index, q.port, hport, (hT _ _ _ hq).mp ht⟩
  · rintro ⟨i, child, hchild, ht⟩
    have hfuel : Ports.levels (Ports.siblings none "" (forest a)) ≤ Ports.depthOf (forest a) := by
      rw [Ports.levels, Ports.siblings_ports]
    obtain ⟨q, hq, hparent, rfl, rfl⟩ := Ports.created_of_child hfuel hp hchild
    obtain ⟨j', hj'⟩ := List.getElem?_of_mem hq
    obtain ⟨row', hrow', hbuild'⟩ :=
      (getElem?_of_forall₂ (Ports.createLevels_ok (hrows a)) j').1 q hj'
    have hq' : RowOf compiler forest pk a (portRow (pk a) a j' row') j' q :=
      ⟨hj', row', hbuild', rfl⟩
    refine ⟨_, (mem_portRows_iff hrows).mpr ⟨a, ha, j', q, hq'⟩, ?_, (hT _ _ _ hq').mpr ht⟩
    obtain ⟨_, _, rfl⟩ := build_ok hbuild'
    simp [portRow, hparent, SqlValue.equal]

mutual
/-- A row matches where its port does. -/
theorem matchesRow_iff_matches
    (hrows : ∀ a, Ports.bulkCreatePorts compiler (forest a) = .ok (rows a))
    (hpk : ∀ a i b j, pk a i = pk b j → a = b ∧ i = j) {a : ActionId} (ha : a ∈ actions)
    {r : Row SqlValue} {j : Nat} {p : Ports.Pending} (hr : RowOf compiler forest pk a r j p)
    (m : PortMatch) :
    m.MatchesRow pathMatch (portRows pk rows actions) r ↔
      p.port.Matches compiler pathMatch p.index m := by
  cases m with
  | mk at_ key kind identifier nullable dimension descriptors children =>
    rw [PortMatch.MatchesRow, Port.Matches, fields_iff hr, acceptsPath_iff hr,
      allMatchBelow_iff_childrenMatch hrows hpk ha hr children]

theorem allMatchBelow_iff_childrenMatch
    (hrows : ∀ a, Ports.bulkCreatePorts compiler (forest a) = .ok (rows a))
    (hpk : ∀ a i b j, pk a i = pk b j → a = b ∧ i = j) {a : ActionId} (ha : a ∈ actions)
    {r : Row SqlValue} {j : Nat} {p : Ports.Pending} (hr : RowOf compiler forest pk a r j p)
    (ms : List PortMatch) :
    PortMatch.AllMatchBelow pathMatch (portRows pk rows actions) r ms ↔
      Port.ChildrenMatch compiler pathMatch p.port ms := by
  cases ms with
  | nil => exact Iff.rfl
  | cons m ms =>
    rw [PortMatch.AllMatchBelow, Port.ChildrenMatch,
      allMatchBelow_iff_childrenMatch hrows hpk ha hr ms]
    refine and_congr_left fun _ => below_iff hrows hpk ha hr fun r' j' q hq => ?_
    exact matchesRow_iff_matches hrows hpk ha hq m
end

/-- The root rows of an action are those of the roots of its forest. -/
theorem roots_iff (hrows : ∀ a, Ports.bulkCreatePorts compiler (forest a) = .ok (rows a))
    {a : ActionId} (ha : a ∈ actions) {T : Row SqlValue → Prop} {T' : Nat → Port → Prop}
    (hT : ∀ r' j' q, RowOf compiler forest pk a r' j' q → (T r' ↔ T' q.index q.port)) :
    (∃ root ∈ portRows pk rows actions,
      (SqlEq (root "action_id") (some (.int a)) ∧ root "parent_id" = none) ∧ T root) ↔
      ∃ i port, (forest a)[i]? = some port ∧ T' i port := by
  constructor
  · rintro ⟨r', hr', ⟨haction, hroot⟩, ht⟩
    obtain ⟨b, hb, j', q, hq⟩ := (mem_portRows_iff hrows).mp hr'
    obtain ⟨hq', row', hbuild', rfl⟩ := id hq
    obtain ⟨_, _, rfl⟩ := build_ok hbuild'
    simp only [portRow, sqlEq_some, SqlValue.equal, decide_eq_true_eq] at haction
    have hab : b = a := Int.ofNat_inj.mp haction
    subst hab
    simp only [portRow, Option.map_eq_none_iff] at hroot
    rcases Ports.parent_of_created (List.mem_of_getElem? hq') with hlevel | ⟨k, p', _, hk, _⟩
    · exact ⟨q.index, q.port, (Ports.mem_siblings.mp hlevel).2.2, (hT _ _ _ hq).mp ht⟩
    · rw [hroot] at hk
      cases hk
  · rintro ⟨i, port, hport, ht⟩
    have hfuel : Ports.levels (Ports.siblings none "" (forest a)) ≤ Ports.depthOf (forest a) := by
      rw [Ports.levels, Ports.siblings_ports]
    have hlevel : (⟨port, none, i, ""⟩ : Ports.Pending) ∈ Ports.siblings none "" (forest a) :=
      Ports.mem_siblings.mpr ⟨rfl, rfl, hport⟩
    have hcreated : ⟨port, none, i, ""⟩ ∈ creations forest a :=
      Ports.mem_createdIn_of_mem hfuel hlevel
    obtain ⟨j', hj'⟩ := List.getElem?_of_mem hcreated
    obtain ⟨row', hrow', hbuild'⟩ :=
      (getElem?_of_forall₂ (Ports.createLevels_ok (hrows a)) j').1 _ hj'
    have hq' : RowOf compiler forest pk a (portRow (pk a) a j' row') j' ⟨port, none, i, ""⟩ :=
      ⟨hj', row', hbuild', rfl⟩
    refine ⟨_, (mem_portRows_iff hrows).mpr ⟨a, ha, j', _, hq'⟩, ?_, (hT _ _ _ hq').mpr ht⟩
    obtain ⟨_, _, rfl⟩ := build_ok hbuild'
    simp [portRow, SqlValue.equal]

end

/-- **The relational matcher is the recursive match.** Over the rows of the ports of any number of
actions, flattened level by level under primary keys of their own, the clause of a match holds of
an action exactly where some root port of it matches. -/
theorem relational_matcher (compiler : List Descriptor → Except Error (Option String))
    (pathMatch : String → String → Option Bool) (forest : ActionId → List Port)
    (rows : ActionId → List PortRow)
    (hrows : ∀ a, Ports.bulkCreatePorts compiler (forest a) = .ok (rows a))
    (pk : ActionId → Nat → Nat) (hpk : ∀ a i b j, pk a i = pk b j → a = b ∧ i = j)
    (actions : List ActionId) (db : String → List (Row SqlValue)) (table idPath : String)
    (hdb : db table = portRows pk rows actions) (m : PortMatch) (b : Built)
    (hb : buildMatchExists table "a" none idPath m = .ok b) (a : ActionId) (ha : a ∈ actions)
    (action : Row SqlValue) (hid : action "id" = some (.int a)) :
    b.Hold pathMatch db b.params.get? [("a", action)] ↔
      ∃ (i : Nat) (port : Port), (forest a)[i]? = some port ∧
        port.Matches compiler pathMatch i m := by
  refine (hold_buildMatchExists hb (action_ne_snake "p" idPath)
    (Built.reads_params (names_buildMatchExists hb).1)).trans ?_
  rw [hdb]
  have hcolumn : Scope.column [("a", action)] "a" "id" = some (.int a) := by
    simp [Scope.column, hid]
  simp only [Correlates, hcolumn]
  exact roots_iff hrows ha fun r' j' q hq => matchesRow_iff_matches hrows hpk ha hq m

/-- An action with a list of images for its argument, and one without arguments. -/
def imageForest : ActionId → List Port
  | 0 => [{ key := "images", kind := .list
            children := [{ key := "...", kind := .struct, identifier := some "@mikro/image" }] }]
  | _ => []

def imageRows (a : ActionId) : List PortRow :=
  (Ports.bulkCreatePorts Descriptors.compileDescriptors (imageForest a)).toOption.getD []

/-- Primary keys by the place of a row in its action, and by the action. -/
def spreadKeys (a : ActionId) (j : Nat) : Nat := Nat.pair a j

/-- A list of images, wherever it stands. -/
def imageMatch : PortMatch :=
  { kind := some .list, children := [{ identifier := some "@mikro/image" }] }

theorem relational_matcher_images : ∃ b,
    buildMatchExists "facade_argport" "a" none "0_0" imageMatch = .ok b ∧
    b.Hold (fun _ _ => none) (fun _ => portRows spreadKeys imageRows [0, 1]) b.params.get?
      [("a", fun name => if name = "id" then some (.int 0) else none)] := by
  refine ⟨_, rfl, (relational_matcher Descriptors.compileDescriptors (fun _ _ => none) imageForest
    imageRows ?_ spreadKeys ?_ [0, 1] _ "facade_argport" "0_0" rfl imageMatch _ rfl 0 (by simp) _
    rfl).mpr ?_⟩
  · intro a
    cases a <;> rfl
  · intro a i b j h
    exact Nat.pair_eq_pair.mp h
  · have hlist : Port.FieldsMatch 0 ((imageForest 0).head (by simp [imageForest])) imageMatch := by
      constructor <;> simp [imageForest, imageMatch]
    refine ⟨0, _, rfl, hlist, by simp, ⟨0, _, rfl, ?_, by simp, trivial⟩, trivial⟩
    constructor <;> simp

end Managers
end Rekuest
