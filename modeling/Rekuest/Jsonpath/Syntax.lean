import Mathlib.Data.Rat.Defs

/-!
# Rekuest.Jsonpath.Syntax

JSONPath predicates: what they are, and the tokens that they are written with.

* `Item`: a JSON value. `Scalar`: one that a path can be compared with.
* `Predicate`: comparisons of paths with scalars, tests for existence, and what is built of them.
  `Query`: a predicate, or a constant.
* `Token`: what the text of a path is read as.

This is the part of the language without arithmetic, methods, filters, variables and subscripts.
-/

namespace Jsonpath

inductive Item where
  | null
  | bool (b : Bool)
  | number (q : ℚ)
  | string (s : String)
  | array (items : List Item)
  | object (members : List (String × Item))
  deriving Inhabited

inductive Scalar where
  | null
  | bool (b : Bool)
  | number (q : ℚ)
  | string (s : String)
  deriving DecidableEq

/-- `.name` and `[*]`. -/
inductive Step where
  | member (name : String)
  | elements
  deriving DecidableEq

inductive Comparison where
  | eq
  | ne
  | lt
  | gt
  | le
  | ge
  deriving DecidableEq

inductive Predicate where
  | compare (path : List Step) (op : Comparison) (scalar : Scalar)
  | existence (path : List Step)
  | not (p : Predicate)
  | and (p q : Predicate)
  | or (p q : Predicate)
  deriving DecidableEq

/-- A path that is evaluated: a predicate, or a constant. -/
inductive Query where
  | predicate (p : Predicate)
  | constant (s : Scalar)
  deriving DecidableEq

inductive Token where
  /-- `$` -/
  | root
  /-- `.` -/
  | dot
  /-- `*` -/
  | star
  /-- `(` -/
  | opening
  /-- `)` -/
  | closing
  | minus
  | and
  | or
  | not
  | comparison (op : Comparison)
  | word (name : String)
  | number (q : ℚ)
  | string (s : String)
  /-- Another special character. -/
  | mark (c : Char)
  deriving DecidableEq

end Jsonpath
