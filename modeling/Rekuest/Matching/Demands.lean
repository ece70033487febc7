import Rekuest.Matching.Naming

/-!
# Rekuest.Matching.Demands

What a demand asks of an action, whatever its clauses are called.

* `PortDemand.Selects`, `ActionDemandInput.Selects`: the rows of an action satisfy a demand.
* `hold_portDemandClauses`, `hold_demandConditions`: the clauses of a demand hold of an action
  where it is selected, at whatever place among the demands they were built.
* `isOk_portDemandClauses`, `isOk_actionDemandClauses`: which demand is refused.
-/

namespace Rekuest
namespace Managers

open Coding Fallible Sql

section

variable {pathMatch : String → String → Option Bool} {db : String → List (Row SqlValue)}
  {params : String → Option SqlValue} {action : Row SqlValue} {table idPath pre : String}

/-! ## Parts -/

/-- Some root row of the action matches. -/
def RootMatch (pathMatch : String → String → Option Bool) (rows : List (Row SqlValue))
    (action : Row SqlValue) (m : PortMatch) : Prop :=
  ∃ r ∈ rows, (SqlEq (r "action_id") (action "id") ∧ r "parent_id" = none) ∧
    m.MatchesRow pathMatch rows r

theorem buildMatches_cons_ok_iff {i : Nat} {m : PortMatch} {ms : List PortMatch} {b : Built} :
    buildMatches table "a" idPath i (m :: ms) = .ok b ↔ ∃ first others,
      buildMatchExists table "a" none (snake idPath (toString i)) m = .ok first ∧
      buildMatches table "a" idPath (i + 1) ms = .ok others ∧ first ++ others = b := by
  simp only [buildMatches, bind_ok_iff, pure_ok_iff, exists_and_left]

theorem hold_buildMatches {ms : List PortMatch} {i : Nat} {b : Built}
    (hb : buildMatches table "a" idPath i ms = .ok b) (hreads : b.Reads params) :
    b.Hold pathMatch db params [("a", action)] ↔
      ∀ m ∈ ms, RootMatch pathMatch (db table) action m := by
  induction ms generalizing i b with
  | nil =>
    cases hb
    simp [Built.Hold]
  | cons m ms ih =>
    obtain ⟨first, others, hfirst, hothers, rfl⟩ := buildMatches_cons_ok_iff.mp hb
    obtain ⟨hr, hrs⟩ := Built.Reads.append_iff.mp hreads
    rw [Built.hold_append, ih hothers hrs, List.forall_mem_cons,
      hold_buildMatchExists hfirst (action_ne_snake _ _) hr]
    have hcolumn : Scope.column [("a", action)] "a" "id" = action "id" := by
      simp [Scope.column]
    simp only [Correlates, hcolumn, RootMatch]

theorem isOk_buildMatches (table idPath : String) (i : Nat) (ms : List PortMatch) :
    (∃ b, buildMatches table "a" idPath i ms = .ok b) ↔ ∀ m ∈ ms, ¬ m.Refused none := by
  induction ms generalizing i with
  | nil => exact iff_of_true ⟨_, rfl⟩ (by simp)
  | cons m ms ih =>
    rw [List.forall_mem_cons, ← ih (i + 1),
      ← isOk_buildMatchExists table "a" none (snake idPath (toString i))]
    constructor
    · rintro ⟨b, hb⟩
      obtain ⟨first, others, hfirst, hothers, _⟩ := buildMatches_cons_ok_iff.mp hb
      exact ⟨⟨first, hfirst⟩, others, hothers⟩
    · rintro ⟨⟨first, hfirst⟩, others, hothers⟩
      exact ⟨_, buildMatches_cons_ok_iff.mpr ⟨first, others, hfirst, hothers, rfl⟩⟩

/-- One clause a match. -/
theorem length_buildMatches {ms : List PortMatch} {i : Nat} {b : Built}
    (hb : buildMatches table "a" idPath i ms = .ok b) : b.conditions.length = ms.length := by
  induction ms generalizing i b with
  | nil =>
    cases hb
    rfl
  | cons m ms ih =>
    obtain ⟨first, others, hfirst, hothers, rfl⟩ := buildMatches_cons_ok_iff.mp hb
    obtain ⟨_, nested, _, rfl⟩ := buildMatchExists_ok_iff.mp hfirst
    simp [ih hothers]

theorem hold_whereSet {α : Type} {value : Option α} {build : α → Built} {s : Scope SqlValue} :
    (whereSet value build).Hold pathMatch db params s ↔
      ∀ x, value = some x → (build x).Hold pathMatch db params s := by
  cases value with
  | none => simp [whereSet, Built.Hold]
  | some x => simp [whereSet]

theorem reads_whereSet {α : Type} {value : Option α} {build : α → Built} :
    (whereSet value build).Reads params ↔ ∀ x, value = some x → (build x).Reads params := by
  cases value with
  | none => simp [whereSet, Built.Reads]
  | some x => simp [whereSet]

/-- A column of the action, compared with a parameter. -/
theorem hold_column {column key : String} {value : SqlValue}
    (hreads : (Built.one (.eq (.column "a" column) (.param key)) key value).Reads params) :
    (Built.one (.eq (.column "a" column) (.param key)) key value).Hold pathMatch db params
      [("a", action)] ↔ SqlEq (action column) (some value) := by
  have hparam : params key = some value := hreads _ List.mem_cons_self
  rw [Built.hold_one, holds_eq, eval_column]
  simp only [Term.eval, hparam]
  rfl

/-! ## Port demands -/

/-- The conditions of a subquery over the root ports of an action. -/
def rootConditions (extraCondition : Clause) : List Clause :=
  [.eq (.column "pc" "action_id") (.column "a" "id"), .isNull (.column "pc" "parent_id"),
    extraCondition]

/-- How many root ports of the action meet an extra condition, which has no parameters. -/
def rootCount (pathMatch : String → String → Option Bool) (db : String → List (Row SqlValue))
    (action : Row SqlValue) (table : String) (extraCondition : Clause) : Nat :=
  (db table).countP fun r => Cond.evalAll (postgres pathMatch) db (fun _ => none)
    [("pc", r), ("a", action)] (rootConditions extraCondition) == some true

/-- The conditions on root ports that a demand counts. -/
def nonNullablePort : Clause := .eq (.column "pc" "nullable") (.const (.bool false))

def structurePort : Clause := .eq (.column "pc" "kind") (.const (.text "STRUCTURE"))

theorem hold_rootCount {extra : Clause} {key : String} {value : Int}
    (hextra : extra = nonNullablePort ∨ extra = structurePort)
    (hreads : (rootCountSubquery table "a" extra key value).Reads params) :
    (rootCountSubquery table "a" extra key value).Hold pathMatch db params [("a", action)] ↔
      (rootCount pathMatch db action table extra : Int) = value := by
  have hparam : params key = some (.int value) := hreads _ List.mem_cons_self
  have hfree : ∀ r, Cond.evalAll (postgres pathMatch) db params [("pc", r), ("a", action)]
      (rootConditions extra) = Cond.evalAll (postgres pathMatch) db (fun _ => none)
        [("pc", r), ("a", action)] (rootConditions extra) := by
    intro r
    rcases hextra with rfl | rfl <;> rfl
  have hcount : (db table).countP ((fun s' => Cond.evalAll (postgres pathMatch) db params s'
      (rootConditions extra) == some true) ∘ fun row => [("pc", row), ("a", action)]) =
      rootCount pathMatch db action table extra :=
    List.countP_congr fun r _ => by simp only [Function.comp_apply, hfree r]
  unfold rootCountSubquery
  rw [Built.hold_one, holds_count]
  simp only [Term.eval, hparam, Option.some.injEq, exists_eq_left', Source.scopes, List.countP_map]
  rw [← hcount]
  show SqlValue.equal (.int _) (.int value) = true ↔ _
  simp only [SqlValue.equal, decide_eq_true_eq]
  rfl

/-- The column of the precalculated count of root ports. -/
def countColumn (table : String) : String :=
  if table = "facade_argport" then "arg_count" else "return_count"

/-- The action satisfies the demand, whose ports are in this table. -/
structure PortDemand.SelectsIn (pathMatch : String → String → Option Bool)
    (db : String → List (Row SqlValue)) (action : Row SqlValue) (table : String) (d : PortDemand) :
    Prop where
  matches_ : ∀ m ∈ d.matches_, RootMatch pathMatch (db table) action m
  length : ∀ n, d.forceLength = some n → SqlEq (action (countColumn table)) (some (.int n))
  nonNullable : ∀ n, d.forceNonNullableLength = some n →
    (rootCount pathMatch db action table nonNullablePort : Int) = n
  structures : ∀ n, d.forceStructureLength = some n →
    (rootCount pathMatch db action table structurePort : Int) = n

def PortDemand.Selects (pathMatch : String → String → Option Bool)
    (db : String → List (Row SqlValue)) (action : Row SqlValue) (d : PortDemand) : Prop :=
  ∃ table, portTable d.kind = some table ∧ d.SelectsIn pathMatch db action table

/-- The clauses of a demand whose matches are built. -/
def demandClauses (table : String) (i : Nat) (d : PortDemand) (found : Built) : Built :=
  found ++
    whereSet d.forceLength (fun n =>
      .one (.eq (.column "a" (countColumn table)) (.param (snake "force_length" (toString i))))
        (snake "force_length" (toString i)) (.int n)) ++
    whereSet d.forceNonNullableLength
      (rootCountSubquery table "a" nonNullablePort (snake "force_non_nullable" (toString i))) ++
    whereSet d.forceStructureLength
      (rootCountSubquery table "a" structurePort (snake "force_structure" (toString i)))

theorem portDemandClauses_ok_iff {i : Nat} {d : PortDemand} {b : Built} :
    portDemandClauses i d = .ok b ↔ ∃ table found, portTable d.kind = some table ∧
      buildMatches table "a" (toString i) 0 d.matches_ = .ok found ∧
      demandClauses table i d found = b := by
  unfold portDemandClauses
  cases ht : portTable d.kind with
  | none =>
    refine iff_of_false ?_ ?_
    · intro h
      cases h
    · rintro ⟨_, _, h, _⟩
      cases h
  | some table =>
    simp only [bind_ok_iff, pure_ok_iff, Option.some.injEq]
    constructor
    · rintro ⟨found, hfound, rfl⟩
      exact ⟨table, found, rfl, hfound, rfl⟩
    · rintro ⟨_, found, rfl, hfound, rfl⟩
      exact ⟨found, hfound, rfl⟩

theorem hold_portDemandClauses {i : Nat} {d : PortDemand} {b : Built}
    (hb : portDemandClauses i d = .ok b) (hreads : b.Reads params) :
    b.Hold pathMatch db params [("a", action)] ↔ d.Selects pathMatch db action := by
  obtain ⟨table, found, htable, hfound, rfl⟩ := portDemandClauses_ok_iff.mp hb
  unfold demandClauses at hreads ⊢
  simp only [Built.Reads.append_iff, reads_whereSet] at hreads
  obtain ⟨⟨⟨hmatches, hlength⟩, hnullable⟩, hstructures⟩ := hreads
  simp only [Built.hold_append, hold_whereSet, hold_buildMatches hfound hmatches]
  have hlengths : (∀ n, d.forceLength = some n → Built.Hold pathMatch db params [("a", action)]
      (.one (.eq (.column "a" (countColumn table)) (.param (snake "force_length" (toString i))))
        (snake "force_length" (toString i)) (.int n))) ↔
      ∀ n, d.forceLength = some n → SqlEq (action (countColumn table)) (some (.int n)) :=
    forall₂_congr fun n hn => hold_column (hlength n hn)
  rw [hlengths, forall₂_congr fun n hn => hold_rootCount (.inl rfl) (hnullable n hn),
    forall₂_congr fun n hn => hold_rootCount (.inr rfl) (hstructures n hn)]
  constructor
  · rintro ⟨⟨⟨h₁, h₂⟩, h₃⟩, h₄⟩
    exact ⟨table, htable, h₁, h₂, h₃, h₄⟩
  · rintro ⟨table', htable', h⟩
    rw [htable] at htable'
    cases htable'
    exact ⟨⟨⟨h.matches_, h.length⟩, h.nonNullable⟩, h.structures⟩

/-- Which demand is refused does not depend on its place. -/
theorem isOk_portDemandClauses (i : Nat) (d : PortDemand) :
    (∃ b, portDemandClauses i d = .ok b) ↔
      (portTable d.kind).isSome = true ∧ ∀ m ∈ d.matches_, ¬ m.Refused none := by
  constructor
  · rintro ⟨b, hb⟩
    obtain ⟨table, found, htable, hfound, _⟩ := portDemandClauses_ok_iff.mp hb
    exact ⟨by rw [htable]; rfl, (isOk_buildMatches table (toString i) 0 d.matches_).mp ⟨_, hfound⟩⟩
  · rintro ⟨htable, hmatches⟩
    obtain ⟨table, htable⟩ := Option.isSome_iff_exists.mp htable
    obtain ⟨found, hfound⟩ := (isOk_buildMatches table (toString i) 0 d.matches_).mpr hmatches
    exact ⟨_, portDemandClauses_ok_iff.mpr ⟨table, found, htable, hfound, rfl⟩⟩

/-! ## Action demands -/

theorem hold_actionColumn {tag column : String} {value : SqlValue}
    (hreads : (actionColumn pre tag column value).Reads params) :
    (actionColumn pre tag column value).Hold pathMatch db params [("a", action)] ↔
      SqlEq (action column) (some value) :=
  hold_column hreads

theorem hold_appClause {app : String} (hreads : (appClause pre app).Reads params) :
    (appClause pre app).Hold pathMatch db params [("a", action)] ↔
      ∃ r ∈ db "authentikate_app", SqlEq (r "identifier") (some (.text app)) ∧
        SqlEq (action "app_id") (r "id") := by
  have hparam : params (snake pre "app") = some (.text app) := hreads _ List.mem_cons_self
  unfold appClause
  rw [Built.hold_one, holds_isIn]
  simp only [Source.scopes, List.mem_map, exists_exists_and_eq_and, List.mem_singleton, forall_eq,
    holds_eq, Term.eval, Scope.bare, hparam, List.head?_cons, Option.bind_some]
  simp only [Scope.column, List.lookup_cons_self, Option.bind_some]
  rfl

/-- The action implements the protocol of this name. -/
def Implements (db : String → List (Row SqlValue)) (action : Row SqlValue) (protocolName : String) :
    Prop :=
  ∃ r ∈ db "facade_action_protocols", ∃ protocol ∈ db "facade_protocol",
    SqlEq (protocol "id") (r "protocol_id") ∧ SqlEq (r "action_id") (action "id") ∧
      SqlEq (protocol "name") (some (.text protocolName))

theorem hold_protocolClause {i : Nat} {protocolName : String}
    (hreads : (protocolClause pre i protocolName).Reads params) :
    (protocolClause pre i protocolName).Hold pathMatch db params [("a", action)] ↔
      Implements db action protocolName := by
  have hparam : params (snake (snake pre "protocol") (toString i)) = some (.text protocolName) :=
    hreads _ List.mem_cons_self
  have hap : snake "ap" (snake (snake pre "protocol") (toString i)) ≠
      snake "p" (snake (snake pre "protocol") (toString i)) :=
    fun h => absurd (snake_left_inj.mp h) (by decide)
  have hne := beq_eq_false_iff_ne.mpr hap
  have ha := fun x y => beq_eq_false_iff_ne.mpr (action_ne_snake x y)
  unfold protocolClause
  rw [Built.hold_one, holds_exists]
  simp only [Source.scopes, List.mem_filter, List.mem_flatMap, List.mem_map, beq_iff_eq,
    same_eq_true, List.mem_cons, List.not_mem_nil, or_false, forall_eq_or_imp, forall_eq, holds_eq,
    Term.eval]
  constructor
  · rintro ⟨_, ⟨⟨r, hr, r', hr', rfl⟩, hjoin⟩, hwhere, hname⟩
    simp only [Scope.column, List.lookup_cons, beq_self_eq_true, hne, ha, hparam,
      Option.bind_some] at hjoin hwhere hname
    exact ⟨r, hr, r', hr', hjoin, hwhere, hname⟩
  · rintro ⟨r, hr, r', hr', hjoin, hwhere, hname⟩
    refine ⟨_, ⟨⟨r, hr, r', hr', rfl⟩, ?_⟩, ?_⟩
    all_goals
      simp only [Scope.column, List.lookup_cons, beq_self_eq_true, hne, ha, hparam,
        Option.bind_some]
    · exact hjoin
    · exact ⟨hwhere, hname⟩

theorem hold_protocolClauses {protocols : List String}
    (hreads : (protocolClauses pre protocols).Reads params) :
    (protocolClauses pre protocols).Hold pathMatch db params [("a", action)] ↔
      ∀ name ∈ protocols, Implements db action name := by
  unfold protocolClauses at hreads ⊢
  have heach : ∀ p ∈ protocols.zipIdx, (protocolClause pre p.2 p.1).Hold pathMatch db params
      [("a", action)] ↔ Implements db action p.1 :=
    fun p hp => hold_protocolClause (hreads.concat (List.mem_map_of_mem hp))
  rw [Built.hold_concat, List.forall_mem_map, forall₂_congr heach]
  have hnames := List.zipIdx_map_fst 0 protocols
  constructor
  · intro h name hname
    rw [← hnames] at hname
    obtain ⟨p, hp, rfl⟩ := List.mem_map.mp hname
    exact h p hp
  · intro h p hp
    exact h p.1 (hnames ▸ List.mem_map_of_mem hp)

/-- The action satisfies the fields of the demand, which are read where it names no hash. -/
structure ActionDemandInput.FieldsSelect (pathMatch : String → String → Option Bool)
    (db : String → List (Row SqlValue)) (action : Row SqlValue) (d : ActionDemandInput) : Prop where
  key : ∀ s, truthy d.key = some s → SqlEq (action "key") (some (.text s))
  app : ∀ s, truthy d.app = some s → ∃ r ∈ db "authentikate_app",
    SqlEq (r "identifier") (some (.text s)) ∧ SqlEq (action "app_id") (r "id")
  version : ∀ s, truthy d.version = some s → SqlEq (action "version") (some (.text s))
  name : ∀ s, truthy d.name = some s → SqlEq (action "name") (some (.text s))
  args : ∀ m ∈ d.argMatches, RootMatch pathMatch (db "facade_argport") action m
  returns : ∀ m ∈ d.returnMatches, RootMatch pathMatch (db "facade_returnport") action m
  argLength : ∀ n, d.forceArgLength = some n → SqlEq (action "arg_count") (some (.int n))
  returnLength : ∀ n, d.forceReturnLength = some n → SqlEq (action "return_count") (some (.int n))
  protocols : ∀ name ∈ d.protocols, Implements db action name
  pure_ : ∀ v, d.pure_ = some v → SqlEq (action "pure") (some (.bool v))
  idempotent : ∀ v, d.idempotent = some v → SqlEq (action "idempotent") (some (.bool v))
  stateful : ∀ v, d.stateful = some v → SqlEq (action "stateful") (some (.bool v))

/-- The action satisfies the demand: where it names a hash, nothing else is read. -/
structure ActionDemandInput.Selects (pathMatch : String → String → Option Bool)
    (db : String → List (Row SqlValue)) (action : Row SqlValue) (d : ActionDemandInput) : Prop where
  hash : ∀ s, truthy d.hash = some s → SqlEq (action "hash") (some (.text s))
  fields : truthy d.hash = none → d.FieldsSelect pathMatch db action

/-- The clauses of the fields of a demand whose matches are built. -/
def fieldClauses (pre : String) (d : ActionDemandInput) (args returns : Built) : Built :=
  whereSet (truthy d.key) (fun s => actionColumn pre "key" "key" (.text s)) ++
    whereSet (truthy d.app) (appClause pre) ++
    whereSet (truthy d.version) (fun s => actionColumn pre "version" "version" (.text s)) ++
    whereSet (truthy d.name) (fun s => actionColumn pre "name" "name" (.text s)) ++
    args ++ returns ++
    whereSet d.forceArgLength (fun n => actionColumn pre "force_arg_length" "arg_count" (.int n)) ++
    whereSet d.forceReturnLength
      (fun n => actionColumn pre "force_return_length" "return_count" (.int n)) ++
    protocolClauses pre d.protocols ++
    whereSet d.pure_ (fun v => actionColumn pre "pure" "pure" (.bool v)) ++
    whereSet d.idempotent (fun v => actionColumn pre "idempotent" "idempotent" (.bool v)) ++
    whereSet d.stateful (fun v => actionColumn pre "stateful" "stateful" (.bool v))

theorem demandConditions_ok_iff {d : ActionDemandInput} {b : Built} :
    demandConditions d pre = .ok b ↔
      (∃ hash, truthy d.hash = some hash ∧ actionColumn pre "hash" "hash" (.text hash) = b) ∨
      (truthy d.hash = none ∧ ∃ args returns,
        buildMatches "facade_argport" "a" (snake pre "arg") 0 d.argMatches = .ok args ∧
        buildMatches "facade_returnport" "a" (snake pre "ret") 0 d.returnMatches = .ok returns ∧
        fieldClauses pre d args returns = b) := by
  unfold demandConditions
  cases hh : truthy d.hash with
  | some hash => simp [pure_ok_iff]
  | none =>
    simp only [bind_ok_iff, pure_ok_iff, reduceCtorEq, false_and, exists_const, false_or, true_and,
      exists_and_left]
    rfl

theorem actionDemandClauses_ok_iff {repr : ActionDemandInput → String} {d : ActionDemandInput}
    {b : Built} :
    actionDemandClauses repr d pre = .ok b ↔
      demandConditions d pre = .ok b ∧ b.conditions ≠ [] := by
  unfold actionDemandClauses
  simp only [bind_ok_iff, requireClauses_ok_iff]
  constructor
  · rintro ⟨b', hb', rfl, hne⟩
    exact ⟨hb', hne⟩
  · rintro ⟨hb, hne⟩
    exact ⟨b, hb, rfl, hne⟩

theorem hold_fieldClauses {d : ActionDemandInput} {args returns : Built}
    (hargs : buildMatches "facade_argport" "a" (snake pre "arg") 0 d.argMatches = .ok args)
    (hreturns : buildMatches "facade_returnport" "a" (snake pre "ret") 0 d.returnMatches =
      .ok returns) (hreads : (fieldClauses pre d args returns).Reads params) :
    (fieldClauses pre d args returns).Hold pathMatch db params [("a", action)] ↔
      d.FieldsSelect pathMatch db action := by
  unfold fieldClauses at hreads ⊢
  simp only [Built.Reads.append_iff, reads_whereSet] at hreads
  obtain ⟨⟨⟨⟨⟨⟨⟨⟨⟨⟨⟨hkey, happ⟩, hversion⟩, hname⟩, ha⟩, hr⟩, hal⟩, hrl⟩, hproto⟩, hpure⟩, hidem⟩,
    hstate⟩ := hreads
  simp only [Built.hold_append, hold_whereSet, hold_buildMatches hargs ha,
    hold_buildMatches hreturns hr, hold_protocolClauses hproto]
  rw [forall₂_congr fun s hs => hold_actionColumn (hkey s hs),
    forall₂_congr fun s hs => hold_appClause (happ s hs),
    forall₂_congr fun s hs => hold_actionColumn (hversion s hs),
    forall₂_congr fun s hs => hold_actionColumn (hname s hs),
    forall₂_congr fun n hn => hold_actionColumn (hal n hn),
    forall₂_congr fun n hn => hold_actionColumn (hrl n hn),
    forall₂_congr fun v hv => hold_actionColumn (hpure v hv),
    forall₂_congr fun v hv => hold_actionColumn (hidem v hv),
    forall₂_congr fun v hv => hold_actionColumn (hstate v hv)]
  constructor
  · rintro ⟨⟨⟨⟨⟨⟨⟨⟨⟨⟨⟨h₁, h₂⟩, h₃⟩, h₄⟩, h₅⟩, h₆⟩, h₇⟩, h₈⟩, h₉⟩, h₁₀⟩, h₁₁⟩, h₁₂⟩
    exact ⟨h₁, h₂, h₃, h₄, h₅, h₆, h₇, h₈, h₉, h₁₀, h₁₁, h₁₂⟩
  · rintro ⟨h₁, h₂, h₃, h₄, h₅, h₆, h₇, h₈, h₉, h₁₀, h₁₁, h₁₂⟩
    exact ⟨⟨⟨⟨⟨⟨⟨⟨⟨⟨⟨h₁, h₂⟩, h₃⟩, h₄⟩, h₅⟩, h₆⟩, h₇⟩, h₈⟩, h₉⟩, h₁₀⟩, h₁₁⟩, h₁₂⟩

theorem hold_demandConditions {d : ActionDemandInput} {b : Built}
    (hb : demandConditions d pre = .ok b) (hreads : b.Reads params) :
    b.Hold pathMatch db params [("a", action)] ↔ d.Selects pathMatch db action := by
  rcases demandConditions_ok_iff.mp hb with ⟨hash, hhash, rfl⟩ | ⟨hhash, args, returns, ha, hr, rfl⟩
  · rw [hold_actionColumn hreads]
    constructor
    · intro h
      refine ⟨fun s hs => ?_, fun hnone => ?_⟩
      · rw [hhash] at hs
        cases hs
        exact h
      · rw [hhash] at hnone
        cases hnone
    · intro h
      exact h.hash hash hhash
  · rw [hold_fieldClauses ha hr hreads]
    constructor
    · intro h
      refine ⟨fun s hs => ?_, fun _ => h⟩
      rw [hhash] at hs
      cases hs
    · intro h
      exact h.fields hhash

/-! ## Refusals -/

/-- The demand asks for nothing. -/
structure ActionDemandInput.Empty (d : ActionDemandInput) : Prop where
  hash : truthy d.hash = none
  key : truthy d.key = none
  app : truthy d.app = none
  version : truthy d.version = none
  name : truthy d.name = none
  args : d.argMatches = []
  returns : d.returnMatches = []
  argLength : d.forceArgLength = none
  returnLength : d.forceReturnLength = none
  protocols : d.protocols = []
  pure_ : d.pure_ = none
  idempotent : d.idempotent = none
  stateful : d.stateful = none

theorem conditions_whereSet {α : Type} {value : Option α} {build : α → Built}
    (h : ∀ x, (build x).conditions ≠ []) :
    (whereSet value build).conditions = [] ↔ value = none := by
  cases value with
  | none => exact iff_of_true rfl rfl
  | some x => exact iff_of_false (h x) (by simp)

theorem conditions_buildMatches {ms : List PortMatch} {i : Nat} {b : Built}
    (hb : buildMatches table "a" idPath i ms = .ok b) : b.conditions = [] ↔ ms = [] := by
  rw [← List.length_eq_zero_iff, length_buildMatches hb, List.length_eq_zero_iff]

theorem conditions_protocolClauses {protocols : List String} :
    (protocolClauses pre protocols).conditions = [] ↔ protocols = [] := by
  cases protocols with
  | nil => exact iff_of_true rfl rfl
  | cons name names => simp [protocolClauses, protocolClause, Built.one, Built.concat, Built.append]

/-- A demand has no clauses where it asks for nothing, wherever it stands. -/
theorem conditions_demandConditions {d : ActionDemandInput} {b : Built}
    (hb : demandConditions d pre = .ok b) : b.conditions = [] ↔ d.Empty := by
  have hcolumn : ∀ tag column value, (actionColumn pre tag column value).conditions ≠ [] :=
    fun _ _ _ => List.cons_ne_nil _ _
  rcases demandConditions_ok_iff.mp hb with ⟨hash, hhash, rfl⟩ | ⟨hhash, args, returns, ha, hr, rfl⟩
  · refine iff_of_false (hcolumn _ _ _) fun h => ?_
    rw [h.hash] at hhash
    cases hhash
  · unfold fieldClauses
    simp only [Built.append_conditions, List.append_eq_nil_iff,
      conditions_whereSet fun _ => hcolumn _ _ _, conditions_buildMatches ha,
      conditions_buildMatches hr, conditions_protocolClauses]
    rw [conditions_whereSet fun app => List.cons_ne_nil _ _]
    constructor
    · rintro ⟨⟨⟨⟨⟨⟨⟨⟨⟨⟨⟨h₁, h₂⟩, h₃⟩, h₄⟩, h₅⟩, h₆⟩, h₇⟩, h₈⟩, h₉⟩, h₁₀⟩, h₁₁⟩, h₁₂⟩
      exact ⟨hhash, h₁, h₂, h₃, h₄, h₅, h₆, h₇, h₈, h₉, h₁₀, h₁₁, h₁₂⟩
    · rintro ⟨_, h₁, h₂, h₃, h₄, h₅, h₆, h₇, h₈, h₉, h₁₀, h₁₁, h₁₂⟩
      exact ⟨⟨⟨⟨⟨⟨⟨⟨⟨⟨⟨h₁, h₂⟩, h₃⟩, h₄⟩, h₅⟩, h₆⟩, h₇⟩, h₈⟩, h₉⟩, h₁₀⟩, h₁₁⟩, h₁₂⟩

theorem isOk_demandConditions (d : ActionDemandInput) (pre : String) :
    (∃ b, demandConditions d pre = .ok b) ↔ (truthy d.hash = none →
      (∀ m ∈ d.argMatches, ¬ m.Refused none) ∧ ∀ m ∈ d.returnMatches, ¬ m.Refused none) := by
  constructor
  · rintro ⟨b, hb⟩ hnone
    rcases demandConditions_ok_iff.mp hb with ⟨hash, hhash, _⟩ | ⟨_, args, returns, ha, hr, _⟩
    · rw [hnone] at hhash
      cases hhash
    · exact ⟨(isOk_buildMatches _ _ _ _).mp ⟨_, ha⟩, (isOk_buildMatches _ _ _ _).mp ⟨_, hr⟩⟩
  · intro h
    cases hh : truthy d.hash with
    | some hash => exact ⟨_, demandConditions_ok_iff.mpr (.inl ⟨hash, hh, rfl⟩)⟩
    | none =>
      obtain ⟨hargs, hreturns⟩ := h hh
      obtain ⟨args, ha⟩ := (isOk_buildMatches "facade_argport" (snake pre "arg") 0 _).mpr hargs
      obtain ⟨returns, hr⟩ :=
        (isOk_buildMatches "facade_returnport" (snake pre "ret") 0 _).mpr hreturns
      exact ⟨_, demandConditions_ok_iff.mpr (.inr ⟨hh, args, returns, ha, hr, rfl⟩)⟩

/-- Which demand is refused does not depend on its place. -/
theorem isOk_actionDemandClauses (repr : ActionDemandInput → String) (d : ActionDemandInput)
    (pre pre' : String) (h : ∃ b, actionDemandClauses repr d pre = .ok b) :
    ∃ b, actionDemandClauses repr d pre' = .ok b := by
  obtain ⟨b, hb⟩ := h
  obtain ⟨hb, hne⟩ := actionDemandClauses_ok_iff.mp hb
  obtain ⟨b', hb'⟩ := (isOk_demandConditions d pre').mpr ((isOk_demandConditions d pre).mp ⟨b, hb⟩)
  refine ⟨b', actionDemandClauses_ok_iff.mpr ⟨hb', fun hempty => hne ?_⟩⟩
  exact (conditions_demandConditions hb).mpr ((conditions_demandConditions hb').mp hempty)

end
end Managers
end Rekuest
