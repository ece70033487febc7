import Mathlib.Data.List.Basic

/-!
# Rekuest.Sql.Query

The conditions of a `SELECT`: what they mean, with the three truth values of SQL.

* `Term`, `Source`, `Cond`: columns of the rows in scope, named parameters, and subqueries that
  see the rows around them. `Dialect`: the values, and the operators on them.
* `Cond.eval`: a condition in a scope. `Holds`: it is true there. A column is that of the innermost
  row of its alias, so that a subquery can hide an alias.
* `Cond.Fresh`: no subquery hides an alias. `Cond.wellFormed`: no `WHERE` is left empty.
-/

namespace Sql

/-- A row: the columns that are not `NULL`. -/
abbrev Row (V : Type) := String → Option V

/-- The rows in scope, with their aliases, the innermost first. -/
abbrev Scope (V : Type) := List (String × Row V)

def Scope.column {V : Type} (s : Scope V) (label name : String) : Option V :=
  (s.lookup label).bind fun row => row name

/-- A column without an alias is one of the innermost row. -/
def Scope.bare {V : Type} (s : Scope V) (name : String) : Option V :=
  s.head?.bind fun row => row.2 name

/-- The operators `O` and the tests `P` of a dialect, on its values `V`: what they compute, and what
stands before, between and after their operands. -/
structure Dialect (O P V : Type) where
  equal : V → V → Bool
  apply : O → V → Option V
  test : P → V → V → Option Bool
  count : Nat → V
  items : V → List V
  writeConst : V → String
  writeOp : O → String × String
  writeTest : P → String × String × String

inductive Term (O V : Type) where
  | column (label name : String)
  | bare (name : String)
  | param (key : String)
  | const (v : V)
  | app (op : O) (t : Term O V)

/-- What stands behind `FROM`. -/
inductive Source (O V : Type) where
  | table (name label : String)
  | join (name label joined joinedLabel : String) (l r : Term O V)
  | elements (t : Term O V) (label item : String) (ordinality : Option String)

inductive Cond (O P V : Type) where
  | eq (l r : Term O V)
  | isNull (t : Term O V)
  | test (p : P) (l r : Term O V)
  | or (c d : Cond O P V)
  | exists_ (source : Source O V) (whose : List (Cond O P V))
  | count (source : Source O V) (whose : List (Cond O P V)) (n : Term O V)
  | isIn (t column : Term O V) (source : Source O V) (whose : List (Cond O P V))

/-! ## Truth values -/

/-- `=`. -/
def same {V : Type} (equal : V → V → Bool) : Option V → Option V → Option Bool
  | some a, some b => some (equal a b)
  | _, _ => none

def either : Option Bool → Option Bool → Option Bool
  | some true, _ => some true
  | _, some true => some true
  | some false, some false => some false
  | _, _ => none

def both : Option Bool → Option Bool → Option Bool
  | some false, _ => some false
  | _, some false => some false
  | some true, some true => some true
  | _, _ => none

theorem either_eq_true {p q : Option Bool} :
    either p q = some true ↔ p = some true ∨ q = some true := by
  rcases p with _ | _ | _ <;> rcases q with _ | _ | _ <;> simp [either]

theorem both_eq_true {p q : Option Bool} :
    both p q = some true ↔ p = some true ∧ q = some true := by
  rcases p with _ | _ | _ <;> rcases q with _ | _ | _ <;> simp [both]

/-! ## Meaning -/

section

variable {O P V : Type} (D : Dialect O P V) (db : String → List (Row V))
  (params : String → Option V)

def Term.eval (s : Scope V) : Term O V → Option V
  | column label name => s.column label name
  | bare name => s.bare name
  | param key => params key
  | const v => some v
  | app op t => (t.eval s).bind (D.apply op)

/-- The row of an element of an array, and of its place from one on. -/
def elementRow (item : String) (ordinality : Option String) (v : V) (place : Nat) : Row V :=
  fun name =>
    if name = item then some v
    else if some name = ordinality then some (D.count (place + 1)) else none

/-- The scopes in which the condition of a subquery is asked. -/
def Source.scopes (s : Scope V) : Source O V → List (Scope V)
  | table name label => (db name).map fun row => (label, row) :: s
  | join name label joined joinedLabel l r =>
    ((db name).flatMap fun row => (db joined).map fun row' =>
      (joinedLabel, row') :: (label, row) :: s).filter fun s' =>
        same D.equal (l.eval D params s') (r.eval D params s') == some true
  | elements t label item ordinality =>
    (((t.eval D params s).map D.items).getD []).zipIdx.map fun p =>
      (label, elementRow D item ordinality p.1 p.2) :: s

mutual
def Cond.eval (s : Scope V) : Cond O P V → Option Bool
  | eq l r => same D.equal (l.eval D params s) (r.eval D params s)
  | isNull t => some (t.eval D params s).isNone
  | test p l r =>
    (l.eval D params s).bind fun a => (r.eval D params s).bind fun b => D.test p a b
  | or c d => either (c.eval s) (d.eval s)
  | exists_ source whose =>
    some ((source.scopes D db params s).any fun s' => Cond.evalAll s' whose == some true)
  | count source whose n =>
    same D.equal
      (some (D.count ((source.scopes D db params s).countP fun s' =>
        Cond.evalAll s' whose == some true)))
      (n.eval D params s)
  | isIn t column source whose =>
    (((source.scopes D db params s).filter fun s' => Cond.evalAll s' whose == some true).map
      fun s' => same D.equal (t.eval D params s) (column.eval D params s')).foldr either (some false)

/-- `AND`. -/
def Cond.evalAll (s : Scope V) : List (Cond O P V) → Option Bool
  | [] => some true
  | c :: cs => both (c.eval s) (Cond.evalAll s cs)
end

/-- The condition is true: `WHERE` keeps the row. -/
def Holds (s : Scope V) (c : Cond O P V) : Prop := c.eval D db params s = some true

end

section

variable {O P V : Type} {D : Dialect O P V} {db : String → List (Row V)}
  {params : String → Option V} {s : Scope V}

attribute [local simp] Cond.eval

theorem same_eq_true {a b : Option V} :
    same D.equal a b = some true ↔ ∃ v v', a = some v ∧ b = some v' ∧ D.equal v v' = true := by
  cases a <;> cases b <;> simp [same]

theorem evalAll_eq_true {cs : List (Cond O P V)} :
    Cond.evalAll D db params s cs = some true ↔ ∀ c ∈ cs, Holds D db params s c := by
  induction cs with
  | nil => simp [Cond.evalAll]
  | cons c cs ih => simp [Cond.evalAll, both_eq_true, ih, Holds]

theorem holds_eq {l r : Term O V} : Holds D db params s (.eq l r) ↔
    ∃ v v', l.eval D params s = some v ∧ r.eval D params s = some v' ∧ D.equal v v' = true := by
  simp only [Holds, Cond.eval]
  exact same_eq_true

theorem holds_isNull {t : Term O V} :
    Holds D db params s (.isNull t) ↔ t.eval D params s = none := by
  simp [Holds, Cond.eval]

theorem holds_test {p : P} {l r : Term O V} : Holds D db params s (.test p l r) ↔
    ∃ v v', l.eval D params s = some v ∧ r.eval D params s = some v' ∧
      D.test p v v' = some true := by
  simp [Holds, Cond.eval, Option.bind_eq_some_iff]

theorem holds_or {c d : Cond O P V} :
    Holds D db params s (.or c d) ↔ Holds D db params s c ∨ Holds D db params s d := by
  simp only [Holds, Cond.eval]
  exact either_eq_true

theorem holds_exists {source : Source O V} {whose : List (Cond O P V)} :
    Holds D db params s (.exists_ source whose) ↔
      ∃ s' ∈ source.scopes D db params s, ∀ c ∈ whose, Holds D db params s' c := by
  simp only [Holds, Cond.eval, Option.some.injEq, List.any_eq_true, beq_iff_eq]
  refine exists_congr fun s' => and_congr_right fun _ => ?_
  exact evalAll_eq_true

theorem holds_isIn {t column : Term O V} {source : Source O V} {whose : List (Cond O P V)} :
    Holds D db params s (.isIn t column source whose) ↔
      ∃ s' ∈ source.scopes D db params s, (∀ c ∈ whose, Holds D db params s' c) ∧
        ∃ v v', t.eval D params s = some v ∧ column.eval D params s' = some v' ∧
          D.equal v v' = true := by
  have hfold : ∀ l : List (Option Bool), l.foldr either (some false) = some true ↔
      some true ∈ l := by
    intro l
    induction l with
    | nil => simp
    | cons p l ih =>
      rw [List.foldr_cons, either_eq_true, ih, List.mem_cons]
      exact or_congr_left eq_comm
  simp only [Holds, Cond.eval, hfold, List.mem_map, List.mem_filter, beq_iff_eq, same_eq_true,
    evalAll_eq_true, and_assoc]

/-- A subquery that counts: over how many rows its condition is true. -/
theorem holds_count {source : Source O V} {whose : List (Cond O P V)} {n : Term O V} :
    Holds D db params s (.count source whose n) ↔
      ∃ v, n.eval D params s = some v ∧
        D.equal (D.count ((source.scopes D db params s).countP fun s' =>
          Cond.evalAll D db params s' whose == some true)) v = true := by
  simp only [Holds, Cond.eval, same_eq_true]
  constructor
  · rintro ⟨v, v', hv, hv', heq⟩
    cases hv
    exact ⟨v', hv', heq⟩
  · rintro ⟨v, hv, heq⟩
    exact ⟨_, v, rfl, hv, heq⟩

end

/-! ## Aliases and grammar -/

section

variable {O P V : Type}

/-- The aliases that a source brings into scope. -/
def Source.aliases : Source O V → List String
  | table _ label => [label]
  | join _ label _ joinedLabel _ _ => [joinedLabel, label]
  | elements _ label _ _ => [label]

mutual
/-- No subquery hides an alias that is in scope, or brings one in twice. -/
def Cond.Fresh (scope : List String) : Cond O P V → Prop
  | eq _ _ => True
  | isNull _ => True
  | test _ _ _ => True
  | or c d => c.Fresh scope ∧ d.Fresh scope
  | exists_ source whose =>
    (source.aliases ++ scope).Nodup ∧ Cond.FreshAll (source.aliases ++ scope) whose
  | count source whose _ =>
    (source.aliases ++ scope).Nodup ∧ Cond.FreshAll (source.aliases ++ scope) whose
  | isIn _ _ source whose =>
    (source.aliases ++ scope).Nodup ∧ Cond.FreshAll (source.aliases ++ scope) whose

def Cond.FreshAll (scope : List String) : List (Cond O P V) → Prop
  | [] => True
  | c :: cs => c.Fresh scope ∧ Cond.FreshAll scope cs
end

mutual
/-- No `WHERE` is left empty. -/
def Cond.wellFormed : Cond O P V → Bool
  | eq _ _ => true
  | isNull _ => true
  | test _ _ _ => true
  | or c d => c.wellFormed && d.wellFormed
  | exists_ _ whose => !whose.isEmpty && Cond.allWellFormed whose
  | count _ whose _ => !whose.isEmpty && Cond.allWellFormed whose
  | isIn _ _ _ whose => !whose.isEmpty && Cond.allWellFormed whose

def Cond.allWellFormed : List (Cond O P V) → Bool
  | [] => true
  | c :: cs => c.wellFormed && Cond.allWellFormed cs
end

theorem freshAll_iff {scope : List String} {cs : List (Cond O P V)} :
    Cond.FreshAll scope cs ↔ ∀ c ∈ cs, c.Fresh scope := by
  induction cs with
  | nil => simp [Cond.FreshAll]
  | cons c cs ih => simp [Cond.FreshAll, ih]

theorem allWellFormed_iff {cs : List (Cond O P V)} :
    Cond.allWellFormed cs = true ↔ ∀ c ∈ cs, c.wellFormed = true := by
  induction cs with
  | nil => simp [Cond.allWellFormed]
  | cons c cs ih => simp [Cond.allWellFormed, ih]

end
end Sql
