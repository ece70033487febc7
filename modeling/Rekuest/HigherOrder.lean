import Rekuest.Models.Rows

/-!
# Rekuest.HigherOrder

The projections of a higher-order implementation: the caller's arguments and the resolved
dependencies go in, mapped onto the lower implementation, and its returns come back out. Whether
a pairing is accepted is checked when it is made.
-/

namespace Rekuest
namespace HigherOrder

variable (config : HigherOrderConfig)

/-- A `KeyError` or a `ValueError`, with its text. -/
inductive ProjectionError where
  | keyError (key : String)
  | valueError (message : String)
  deriving DecidableEq, Repr

/-- The `arg_map` loop: the arguments so far, and the caller keys used. -/
def mapArgs (callerArgs : Dict Json) :
    Dict ProjectionSource → Dict Json × List String → Except ProjectionError (Dict Json × List String)
  | [], acc => .ok acc
  | (lowerKey, spec) :: rest, (lowerArgs, consumed) =>
    if spec.source = some "caller" then
      match spec.key with
      | none => .error (.keyError "key")
      | some callerKey =>
        match callerArgs.get? callerKey with
        | none => .error (.valueError
            s!"Higher-order arg map references caller arg '{callerKey}' which was not supplied")
        | some value =>
          mapArgs callerArgs rest (lowerArgs.set lowerKey value, callerKey :: consumed)
    else mapArgs callerArgs rest (lowerArgs, consumed)

def buildLowerArgs (callerArgs : Dict Json) : Except ProjectionError (Dict Json) := do
  let (lowerArgs, consumed) ← mapArgs callerArgs config.argMap (config.bound, [])
  let remaining := callerArgs.filter fun kv => !consumed.contains kv.1
  match config.argsKey with
  | some argsKey =>
    -- an empty `args_key` is falsy
    if argsKey = "" then return lowerArgs.update remaining
    else return lowerArgs.set argsKey (.obj remaining)
  | none => return lowerArgs.update remaining

/-- The `dependency_map` loop. -/
def mapDependencies (resolved : Dict Json) :
    Dict ProjectionSource → Dict Json → Except ProjectionError (Dict Json)
  | [], acc => .ok acc
  | (lowerKey, spec) :: rest, acc =>
    if spec.source = some "bound" then
      mapDependencies resolved rest (acc.set lowerKey (spec.value.getD .null))
    else if spec.source = some "caller" then
      match spec.key with
      | none => .error (.keyError "key")
      | some key =>
        match resolved.get? key with
        | none => .error (.valueError
            s!"Higher-order dependency map references declared dependency '{key}' which the caller did not supply")
        | some value => mapDependencies resolved rest (acc.set lowerKey value)
    else .error (.valueError
      s!"Higher-order dependency map entry for '{lowerKey}' must set 'from' to 'bound' or 'caller'")

def buildLowerDependencies (resolved : Dict Json) : Except ProjectionError (Dict Json) :=
  if config.dependencyMap = [] then .ok resolved
  else mapDependencies resolved config.dependencyMap []

def projectReturns (lowerReturns : Option (Dict Json)) : Option (Dict Json) :=
  match lowerReturns with
  | none => none
  | some returns =>
    if config.returnMap = [] then some returns
    else some (config.returnMap.map fun (higherKey, lowerKey) =>
      (higherKey, (returns.get? lowerKey).getD .null))

/-! ## The checks of a pairing -/

/-- The keys of the wrapper's dependencies that the map refers to: `spec["key"]` of each entry
that is sourced from the caller. -/
def requiredLowerDependencySources : Except ProjectionError (List String) :=
  (config.dependencyMap.filter fun e => e.2.source = some "caller").mapM fun e =>
    match e.2.key with
    | some key => .ok key
    | none => .error (.keyError "key")

/-- A loop that raises at the first key that fails a test. -/
def checkKeys (keys : List String) (test : String → Bool) (message : String → String) :
    Except ProjectionError Unit :=
  match keys.find? fun key => !test key with
  | some key => .error (.valueError (message key))
  | none => .ok ()

def validateDependencyCoverage (lowerDependencyKeys declaredHDependencyKeys : List String) :
    Except ProjectionError Unit := do
  let sources ← requiredLowerDependencySources config
  let _ ← checkKeys sources declaredHDependencyKeys.contains fun hKey =>
    s!"Higher-order dependency map references undeclared dependency '{hKey}'. Declare it on the wrapper so the caller knows to pass it."
  if config.dependencyMap = [] then
    checkKeys lowerDependencyKeys declaredHDependencyKeys.contains fun lowerKey =>
      s!"Lower dependency '{lowerKey}' has no mapping and no matching declared dependency on the wrapper."
  else
    checkKeys lowerDependencyKeys (fun key => (config.dependencyMap.get? key).isSome)
      fun lowerKey =>
        s!"Lower dependency '{lowerKey}' is neither bound nor mapped to a declared dependency."

/-- How a kind is shown in a message. -/
def kindValue : ActionKind → String
  | .function => "FUNCTION"
  | .generator => "GENERATOR"

def validateHigherOrderPairing (higherActionKind lowerActionKind : ActionKind)
    (lowerIsHigherOrder : Bool) : Except ProjectionError Unit :=
  if lowerIsHigherOrder then
    .error (.valueError
      "Nested higher-order implementations are not supported yet — wrap a concrete implementation, not another wrapper.")
  else if higherActionKind ≠ lowerActionKind then
    .error (.valueError
      s!"Higher-order kind mismatch: wrapper is {kindValue higherActionKind} but the wrapped action is {kindValue lowerActionKind}; they must agree.")
  else .ok ()

end HigherOrder
end Rekuest
