import Rekuest.Coding.Figures
import Rekuest.Managers
import Rekuest.Ports

/-!
# Rekuest.Units

The dimensions of the units of quantity ports, as texts that are compared.

* `renderDimensionality`: the text of a dimensionality, which is a map from dimensions to exponents.
* `dimensionalityOf`: that of a unit. `pint` is the unit registry.
* `checkKindSpecificFields`: the validation of a port, which derives its dimension.
-/

namespace Rekuest
namespace Units

open Coding

def dimensionless : String := "dimensionless"

/-- The order of pairs. -/
def before (a b : String × ℚ) : Prop := a.1 < b.1 ∨ a.1 = b.1 ∧ a.2 ≤ b.2

instance : DecidableRel before := fun a b =>
  inferInstanceAs (Decidable (a.1 < b.1 ∨ a.1 = b.1 ∧ a.2 ≤ b.2))

def positive (dims : List (String × ℚ)) : List (String × ℚ) :=
  (dims.filter fun e => 0 < e.2).insertionSort before

def negative (dims : List (String × ℚ)) : List (String × ℚ) :=
  (dims.filter fun e => e.2 < 0).insertionSort before

def term (e : String × ℚ) : List Char :=
  if |e.2| = 1 then e.1.toList else e.1.toList ++ (" ** ".toList ++ general |e.2|)

/-- `_render_dimensionality`, of the items in the order in which the map gives them. -/
def renderDimensionality (dims : List (String × ℚ)) : String :=
  if (positive dims).isEmpty && (negative dims).isEmpty then dimensionless
  else
    let numerator := if (positive dims).isEmpty then ['1']
      else " * ".toList.intercalate ((positive dims).map term)
    String.ofList ((negative dims).foldl (fun rendered e => rendered ++ " / ".toList ++ term e) numerator)

/-- A dimension is a word in brackets. -/
def IsDimension (name : String) : Prop :=
  name.toList.head? = some '[' ∧ name.toList.getLast? = some ']' ∧ ' ' ∉ name.toList

/-- A map from dimensions to exponents that are not zero, in an order of its items. -/
structure Dimensionality where
  items : List (String × ℚ)
  distinct : (items.map Prod.fst).Nodup
  nonzero : ∀ e ∈ items, e.2 ≠ 0
  named : ∀ e ∈ items, IsDimension e.1

-- what the registry answers to a unit or an expression of dimensions, or its error
variable (pint : String → Except String Dimensionality)

/-- The sentinel has no dimension, and the registry is not asked. -/
def getDimensionality (expression : String) : Except Error Dimensionality :=
  if String.ofList (Ports.strip expression.toList) = dimensionless then
    .ok ⟨[], List.nodup_nil, by simp, by simp⟩
  else match pint expression with
    | .ok dims => .ok dims
    | .error e => .error (.valueError s!"Unknown or unparseable unit '{expression}': {e}")

def dimensionalityOf (expression : String) : Except Error String := do
  return renderDimensionality (← getDimensionality pint expression).items

/-- The fields that the validation of a port looks at. -/
structure PortFields where
  key : String
  kind : PortKind
  children : Option Nat := none
  referenceUnit : Option String := none
  proposedUnits : Option (List String) := none
  dimension : Option String := none

/-- A unit that is proposed has the dimension that was derived. -/
def checkProposed (key derived unit : String) : Except Error Unit := do
  let unitDim ← dimensionalityOf pint unit
  if unitDim ≠ derived then
    throw (.valueError (s!"QUANTITY port '{key}': proposed unit '{unit}' has dimensionality " ++
      s!"'{unitDim}', expected '{derived}'"))

/-- A dimension that is declared is that of the unit. -/
def checkDeclared (key unit derived : String) : Option String → Except Error Unit
  | none => pure ()
  | some dimension => do
    if (← dimensionalityOf pint dimension) ≠ derived then
      throw (.valueError (s!"QUANTITY port '{key}': dimension '{dimension}' is inconsistent with " ++
        s!"reference_unit '{unit}' (dimensionality '{derived}')"))

def checkChildren (port : PortFields) : Except Error Unit :=
  if port.kind = .list ∧ port.children ≠ some 1 then
    throw (.valueError "Port of kind LIST must have exactly one child")
  else pure ()

/-- The fields that only a quantity has, where they are set. -/
def offending (port : PortFields) : List String :=
  (if port.referenceUnit.isSome then ["reference_unit"] else []) ++
    (if port.proposedUnits.isSome then ["proposed_units"] else []) ++
    (if port.dimension.isSome then ["dimension"] else [])

def checkKindSpecificFields (port : PortFields) : Except Error PortFields := do
  checkChildren port
  if port.kind = .quantity then
    match port.referenceUnit.filter (· ≠ "") with
    | none => throw (.valueError s!"QUANTITY port '{port.key}' must declare a reference_unit")
    | some unit =>
      let derived ← dimensionalityOf pint unit
      checkDeclared pint port.key unit derived port.dimension
      (port.proposedUnits.getD []).forM (checkProposed pint port.key derived)
      return { port with dimension := some derived }
  else if offending port ≠ [] then
    throw (.valueError (s!"Port '{port.key}' of kind {port.kind.value} must not set " ++
      "QUANTITY-only fields: " ++ ", ".intercalate (offending port)))
  else return port

end Units
end Rekuest
