import Rekuest.Models.Enums
import Rekuest.Models.Json

/-!
# Rekuest.Models.Definitions

What an agent declares of itself when it registers.

* `Port`: a port with the ports nested in it.
* `Definition`: an action as it is declared. `Identity`: the part of it that its hash is of.
* `ImplementationInput`, `StateInput`, `LockInput`, `BlokInput`: the declared parts of an agent.
-/

namespace Rekuest

inductive PortKind where
  | int | string | struct | list | bool | dict | float | date | union | enum | model
  | memoryStructure | interface | quantity
  deriving DecidableEq, Repr

inductive ActionKind where
  | function | generator
  deriving DecidableEq, Repr

inductive ActionScope where
  | globalScope | localScope | bridgeGlobalToLocal | bridgeLocalToGlobal
  deriving DecidableEq, Repr

/-- The members of `RequiresOperator`, which are those of `ProvidesOperator`. -/
inductive DescriptorOperator where
  | matches | existence | lte | gte | equals | contains | notEquals | isIn | notIn
  deriving DecidableEq, Repr

inductive AssignPolicy where
  | automatic | balanced | roundRobin | leastBusy | fastestResponse
  deriving DecidableEq, Repr

/-- A requirement of an argument, or a provision of a return. -/
structure Descriptor where
  key : String
  operator : DescriptorOperator
  value : Json

structure Port where
  key : String
  kind : PortKind
  identifier : Option String := none
  nullable : Bool := false
  dimension : Option String := none
  /-- `requires` of an argument, `provides` of a return. -/
  descriptors : List Descriptor := []
  /-- What else the port declares (its label, widget, default): stored, and never looked into. -/
  other : Json := .null
  children : List Port := []

/-- The action that a test tests. -/
structure TestTarget where
  hash : Option String := none
  app : Option String := none
  key : Option String := none
  version : Option String := none
  deriving DecidableEq, Repr

/-- What the hash of a definition is of. -/
structure Identity where
  key : String
  version : String := "1"
  name : String
  description : Option String := none
  stateful : Bool := false
  args : List Port := []
  returns : List Port := []
  collections : List String := []
  isTestFor : List TestTarget := []

structure Definition extends Identity where
  kind : ActionKind := .function
  pure : Bool := false
  idempotent : Bool := false
  isDev : Bool := false
  portGroups : List Json := []

structure Window where
  windowFunction : String
  label : Option String := none
  deriving DecidableEq, Repr

structure Track where
  dependencyKey : Option String := none
  stateKey : String
  valueKey : String
  label : Option String := none
  description : Option String := none
  windows : Option (List Window) := none
  deriving DecidableEq, Repr

/-- A demand of a dependency: the slot's key, the action key it asks for if it names one, and
what else it asks for. -/
structure ActionDemand where
  key : String
  demandKey : Option String := none
  other : String := ""
  deriving DecidableEq, Repr

structure StateDemand where
  key : String
  other : String := ""
  deriving DecidableEq, Repr

structure AgentDependency where
  key : String
  app : Option String := none
  version : Option String := none
  description : Option String := none
  optional : Bool := false
  actionDependencies : List ActionDemand := []
  stateDependencies : List StateDemand := []
  autoResolvable : Bool := false
  minViableInstances : Option Nat := none
  maxViableInstances : Option Nat := none
  preferedInstances : Option Nat := none
  assignPolicy : AssignPolicy := .balanced
  deriving DecidableEq, Repr

structure ImplementationInput where
  interface : String
  definition : Definition
  dependencies : List AgentDependency := []
  tracks : Option (List Track) := none
  params : Option (Dict Json) := none
  manipulates : Option (List String) := none
  needsToken : Bool := true
  provenanceAudience : Option (List String) := none
  effect : EffectClass := .none

structure StateInput where
  interface : String
  key : Option String := none
  app : Option String := none
  name : String
  ports : List Port

structure LockInput where
  key : String
  description : Option String := none
  deriving DecidableEq, Repr

structure BlokInput where
  key : String
  dependencies : List AgentDependency := []
  components : List Json := []
  catalog : Option String := none
  description : Option String := none
  demoState : Option (Dict Json) := none

structure AgentInput where
  name : Option String := none
  hash : Option String := none
  implementations : List ImplementationInput := []
  states : List StateInput := []
  locks : List LockInput := []
  bloks : List BlokInput := []

end Rekuest
