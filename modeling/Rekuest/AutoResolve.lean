import Mathlib.Data.Finset.Insert
import Rekuest.Fallible.Attempt
import Rekuest.Matching.StateDemands

/-!
# Rekuest.AutoResolve

The resolver: it chooses implementations for the dependencies of an implementation, and then for
those of the implementations it chose.

* `Server`: what the resolver asks of the server and of the schemas.
* `selectAgent`: the agent of a dependency, and the actions of its slots.
* `Resolving`: the rows so far, the implementations visited, and what was turned to.
* `autoResolve`: the recursion, on fuel. `autoResolveMutation`: the mutation.
-/

namespace Rekuest

open Fallible Interleave Managers Sql

/-- What is asked of the server, which gives rows in an order of its own, and of the schemas that
read the demands of a dependency. -/
structure Server where
  pathMatch : String → String → Option Bool
  tables : String → List (Row SqlValue)
  unionOrder : List (Nat × Option SqlValue) → List (Nat × Option SqlValue)
  unionOrder_perm : ∀ rows, (unionOrder rows).Perm rows
  /-- Where the row with this key comes in the answer to a query without an order. -/
  rank : Nat → Nat → Nat
  demand : ActionDemand → Option ActionDemandInput
  stateDemand : StateDemand → Option StateDemandInput
  actionText : ActionDemand → String
  stateText : StateDemand → String
  demandText : ActionDemandInput → String
  stateDemandText : StateDemandInput → String

/-- A slot that is turned to: whose it is, the candidates in their order, and what was visited. -/
structure Turn where
  resolution : Nat
  dependency : Nat
  key : String
  candidates : List ImplementationId
  visited : Finset ImplementationId
  prefered : Option Nat

/-- The rows that the resolver writes, and the set it carries. The queries are counted because
each may have an order of its own. No code reads `calls` and `turns`: the implementations that the
resolver called itself with, and the slots it turned to. -/
structure Resolving where
  resolutions : Table Resolution
  resolvedDependencies : Table ResolvedDependency
  visited : Finset ImplementationId := ∅
  queries : Nat := 0
  calls : List ImplementationId := []
  turns : List Turn := []

namespace Resolving

def visit (i : ImplementationId) (s : Resolving) : Resolving :=
  { s with visited := insert i s.visited }

def create (r : Resolution) (s : Resolving) : Resolving :=
  { s with resolutions := s.resolutions.insert r }

def resolve (d : ResolvedDependency) (s : Resolving) : Resolving :=
  { s with resolvedDependencies := s.resolvedDependencies.insert d }

def call (i : ImplementationId) (s : Resolving) : Resolving := { s with calls := s.calls ++ [i] }

def turn (t : Turn) (s : Resolving) : Resolving := { s with turns := s.turns ++ [t] }

end Resolving

/-- What is chosen for a dependency: the actions of each slot, and the agent. -/
structure Selection where
  slots : List (String × List (Option SqlValue))
  agent : AgentId

/-- `matched_ids`: of the slots of one key the last. -/
def Selection.matchedIds (s : Selection) : Dict (List (Option SqlValue)) := Dict.update [] s.slots

namespace AutoResolve

open Attempt

abbrev Step (α : Type) := Attempt Resolving Error α

variable (V : Server) (db : Database) (organization : Organization)

/-! ## Selection -/

def hasDependencies (i : ImplementationId) : Bool :=
  !(db.dependencies.select fun _ d => d.implementation = i).isEmpty

/-- The ids of one slot. -/
def slotIds (p : ActionDemand × List (Option SqlValue)) :
    Except Error (String × List (Option SqlValue)) :=
  if p.2.isEmpty then
    .error (.valueError ("No actions found that match the given action demands " ++ V.actionText p.1))
  else .ok (p.1.key, p.2)

/-- The slots of a dependency. A slot without a demand has an empty one. -/
def slotsOf (dependency : Dependency) : Except Error (List (String × List (Option SqlValue))) := do
  let perDemandIds ← raising (getActionIdsByActionDemands (postgres V.pathMatch) V.tables
    V.unionOrder V.demandText (dependency.actionDemands.map fun d => (V.demand d).getD {})
    (some (.int organization.pk)))
  (dependency.actionDemands.zip perDemandIds).mapM (slotIds V)

/-- The filter on states of one state demand. -/
def stateFilter (p : StateDemand × StateDemandInput) : Except Error StateFilters := do
  let filters ← stateDemandStateFilters (postgres V.pathMatch) V.tables V.stateDemandText p.2
  if filters.definitionIds.any List.isEmpty then
    throw (.valueError
      ("No state definitions found that match the given state demand " ++ V.stateText p.1))
  return filters

/-- The state demands that demand something. -/
def stateDemandsOf (dependency : Dependency) : List (StateDemand × StateDemandInput) :=
  dependency.stateDemands.filterMap fun d => (V.stateDemand d).map fun demand => (d, demand)

/-- An implementation of the agent, of one of the actions. -/
def offers (ids : List (Option SqlValue)) (agent : AgentId) (i : Implementation) : Bool :=
  inIds ids i.action && i.agent = agent

/-- The agents that offer an action for each slot and a state for each filter. -/
def isSatisfying (slots : List (String × List (Option SqlValue))) (filters : List StateFilters)
    (agent : AgentId) : Bool :=
  slots.all (fun s => !(db.implementations.select fun _ i => offers s.2 agent i).isEmpty) &&
    filters.all fun f =>
      !(db.states.select fun _ s => s.agent = agent && f.keeps V.tables s).isEmpty

/-- The first agent that can satisfy a dependency, and the ids of its slots. -/
def selectAgent (dependency : Dependency) : Except Error Selection := do
  let slots ← slotsOf V organization dependency
  let filters ← (stateDemandsOf V dependency).mapM (stateFilter V)
  let agentsQs := db.agents.select fun k a =>
    a.organization = organization && isSatisfying V db slots filters k
  match agentsQs.head? with
  | none =>
    throw (.valueError ("No agent found that can satisfy dependency " ++ dependency.key))
  | some agent => return ⟨slots, agent.1⟩

/-! ## The recursion -/

/-- A query without an order. -/
def rows {α : Type} (t : Table α) (p : Nat → α → Bool) : Step (List (Nat × α)) := do
  let n ← look Resolving.queries
  write fun s => { s with queries := s.queries + 1 }
  return t.selectBy (V.rank n) p

/-- What a foreign key of the implementation refers to. -/
def actionName (implementation : ImplementationId) : String :=
  ((db.implementations.get implementation).bind fun i => db.actions.get i.action).elim "" Action.name

def agentName (implementation : ImplementationId) : String :=
  ((db.implementations.get implementation).bind fun i => db.agents.get i.agent).elim "" Agent.name

/-- The name of the resolution that the mutation creates. -/
def topName (implementation : ImplementationId) : String :=
  "Auto-resolve for " ++ actionName db implementation

/-- The name of the resolution of a candidate. A dependency has no text but that of its key. -/
def downStreamName (implementation : ImplementationId) (dependency : Nat) (key : String) : String :=
  "Auto-resolve for Dependency object (" ++ toString dependency ++ ")" ++ key ++ " on " ++
    (actionName db implementation ++ " implemented by " ++ agentName db implementation)

/-- `Resolution.objects.create`. -/
def createResolution (name : String) (implementation : ImplementationId) : Step Nat :=
  if VarChar.Takes 200 name then do
    let resolution ← look fun s => s.resolutions.next
    write (Resolving.create ⟨implementation⟩)
    return resolution
  else raise .dataError

/-- `ResolvedDependency.objects.create`. Blanks that are cut off from a long key are kept here. -/
def createResolvedDependency (d : ResolvedDependency) : Step Unit :=
  if VarChar.Takes 2000 d.key then write (Resolving.resolve d) else raise .dataError

/-- A row for the candidate, and a resolution of its own where it has dependencies. -/
def choose (recur : ImplementationId → Nat → Step Unit) (implementation : ImplementationId)
    (resolution dependency : Nat) (key : String) (impl : ImplementationId) : Step Unit := do
  if hasDependencies db impl then
    write (Resolving.visit impl)
    let sresolution ← createResolution (downStreamName db implementation dependency key) impl
    write (Resolving.call impl)
    recur impl sresolution
    createResolvedDependency
      { resolution := resolution, dependency := some dependency, key := key, implementation := impl
        downStreamResolution := some sresolution }
  else
    createResolvedDependency
      { resolution := resolution, dependency := some dependency, key := key
        implementation := impl }
    write (Resolving.visit impl)

/-- The loop over the candidates of a slot. An unset count cannot be compared with. -/
def fillSlot (recur : ImplementationId → Nat → Step Unit) (implementation : ImplementationId)
    (resolution dependency : Nat) (prefered : Option Nat) (key : String) :
    Nat → List ImplementationId → Step Unit
  | _, [] => return ()
  | count, impl :: impls => do
    let visited ← look Resolving.visited
    if impl ∈ visited then
      fillSlot recur implementation resolution dependency prefered key count impls
    else
      choose db recur implementation resolution dependency key impl
      match prefered with
      | none => raise .typeError
      | some n =>
        if count + 1 ≥ n then return ()
        else fillSlot recur implementation resolution dependency prefered key (count + 1) impls

/-- One slot: the implementations of the selected agent, in the order of the server. -/
def resolveSlot (recur : ImplementationId → Nat → Step Unit) (implementation : ImplementationId)
    (resolution : Nat) (dependency : Nat × Dependency) (agent : AgentId)
    (slot : String × List (Option SqlValue)) : Step Unit := do
  let implementations ← rows V db.implementations fun _ i => offers slot.2 agent i
  let candidates := implementations.map Prod.fst
  let visited ← look Resolving.visited
  write (Resolving.turn ⟨resolution, dependency.1, slot.1, candidates, visited,
    dependency.2.preferedInstances⟩)
  fillSlot db recur implementation resolution dependency.1 dependency.2.preferedInstances slot.1 0
    candidates

def resolveDependency (recur : ImplementationId → Nat → Step Unit)
    (implementation : ImplementationId) (resolution : Nat) (dependency : Nat × Dependency) :
    Step Unit := do
  let selection ← attempt (selectAgent V db organization dependency.2)
  selection.matchedIds.forM
    (resolveSlot V db recur implementation resolution dependency selection.agent)

def resolveAll (recur : ImplementationId → Nat → Step Unit) (implementation : ImplementationId)
    (resolution : Nat) : Step Unit := do
  let dependencies ← rows V db.dependencies fun _ d => d.implementation = implementation
  dependencies.forM (resolveDependency V db organization recur implementation resolution)

/-- `if not visited_implementations: visited_implementations = set()`: an empty set is left as it
is, and the call goes on with one of its own. -/
def ownVisited (x : Step Unit) : Step Unit := do
  let visited ← look Resolving.visited
  x
  write fun s => if visited = ∅ then { s with visited := ∅ } else s

end AutoResolve

/-- `auto_resolve`. -/
def autoResolve (V : Server) (db : Database) (organization : Organization) :
    Nat → ImplementationId → Nat → AutoResolve.Step Unit
  | 0, _, _ => Attempt.unfinished
  | fuel + 1, implementation, resolution =>
    AutoResolve.ownVisited
      (AutoResolve.resolveAll V db organization (autoResolve V db organization fuel) implementation
        resolution)

/-- The mutation. Where nothing is raised, the new resolution is returned. -/
def autoResolveMutation (V : Server) (db : Database) (organization : Organization) (fuel : Nat)
    (implementation : ImplementationId) : AutoResolve.Step Nat := do
  let _ ← Attempt.attempt (orRaise (.doesNotExist "Implementation")
    (db.implementations.get implementation))
  let resolution ← AutoResolve.createResolution (AutoResolve.topName db implementation)
    implementation
  autoResolve V db organization fuel implementation resolution
  return resolution

end Rekuest
