import Rekuest.HigherOrder
import Rekuest.ImplementAgent

/-!
# Rekuest.Wrapping

The link of a wrapper implementation to the one it wraps, and what else changes implementations.

* `setHigherOrder`: the mutation that makes the link. It checks the pairing as it is then.
* `Change`: a link, or a registration. `Change.run`: what it leaves of the database.
-/

namespace Rekuest
namespace Registration

open Fallible

/-- The keys of the dependencies of an implementation. -/
def dependencyKeys (db : Database) (i : ImplementationId) : List String :=
  (db.dependencies.select fun _ row => row.implementation = i).map fun r => r.2.key

structure SetHigherOrderInput where
  implementation : ImplementationId
  lowerImplementation : ImplementationId
  config : Option HigherOrderConfig := none

/-- A refusal of the projection, as the error it is. -/
def refusal : HigherOrder.ProjectionError → Error
  | .keyError key => .keyError key
  | .valueError message => .valueError message

/-- What `set_higher_order` checks of the two rows. -/
def checkPairing (db : Database) (input : SetHigherOrderInput) (higher lower : Implementation) :
    Except Error Unit :=
  if input.implementation = input.lowerImplementation then
    .error (.valueError "An implementation cannot wrap itself")
  else if higher.agent ≠ lower.agent then
    .error (.valueError "A higher-order implementation must be on the same agent as the lower implementation it wraps. Register the wrapper on the lower implementation's agent.")
  else do
    let higherAction ← orRaise (.doesNotExist "Action") (db.actions.get higher.action)
    let lowerAction ← orRaise (.doesNotExist "Action") (db.actions.get lower.action)
    let _ ← (HigherOrder.validateHigherOrderPairing higherAction.kind lowerAction.kind
      lower.higherOrderFor.isSome).mapError refusal
    (HigherOrder.validateDependencyCoverage (input.config.getD {})
      (dependencyKeys db input.lowerImplementation)
      (dependencyKeys db input.implementation)).mapError refusal

/-- `set_higher_order`. -/
def setHigherOrder (db : Database) (input : SetHigherOrderInput) :
    Except Error (Database × ImplementationRef) := do
  let higher ← orRaise (.doesNotExist "Implementation")
    (db.implementations.get input.implementation)
  let lower ← orRaise (.doesNotExist "Implementation")
    (db.implementations.get input.lowerImplementation)
  let _ ← checkPairing db input higher lower
  let row := { higher with
    higherOrderFor := some input.lowerImplementation
    higherOrderConfig := input.config.getD {} }
  let stored ← storeImplementation db (some input.implementation) row
  return (stored.1, stored.2, row)

inductive Change where
  | setHigherOrder (input : SetHigherOrderInput)
  | register (call : Call)

/-- A change that fails changes nothing. -/
def Change.run (H : Hashing) (db : Database) : Change → Database
  | .setHigherOrder input =>
    match Registration.setHigherOrder db input with
    | .ok r => r.1
    | .error _ => db
  | .register call => call.run H db

end Registration
end Rekuest
