import Rekuest.Fallible.Attempt
import Rekuest.Interleave.Keyed
import Rekuest.Store

/-!
# Rekuest.Materialization

The mutations that put a blok on a dashboard and name the agents that fulfil its dependencies.

* `Boards`: the database with the dashboards and what is placed on them.
* `materializeBlok`, `updateMaterializedBlok`: the mutations. Every statement of them is committed
  on its own, so that what was written before an error stays written.
-/

namespace Rekuest

open Fallible Interleave

structure Dashboard where
  name : String
  deriving DecidableEq, Repr

structure DashboardPlacement where
  dashboard : Nat
  blok : Nat
  deriving DecidableEq, Repr

/-- Placements and mappings are of materialized bloks that are there. -/
structure Boards extends Database where
  dashboards : Table Dashboard := .empty
  dashboardPlacements : Table DashboardPlacement := .empty
  placed : ∀ k row, dashboardPlacements.get k = some row →
    (materializedBloks.get row.blok).isSome = true
  mapped : ∀ k row, blokAgentMappings.get k = some row →
    (materializedBloks.get row.materializedBlok).isSome = true

structure BlokAgentMappingInput where
  agent : String
  key : String

structure MaterializeBlokInput where
  blok : String
  dashboard : Option String := none
  agentMappings : Option (List BlokAgentMappingInput) := none

structure UpdateMaterializedBlokInput where
  id : String
  agentMappings : Option (List BlokAgentMappingInput) := none

/-- What is assigned to the field `agent` of a mapping: a row, or an id. -/
inductive AgentValue where
  | row (agent : AgentId)
  | id (text : String)

/-- The descriptor of a foreign key takes a row of its model, and no id. -/
def AgentValue.assign : AgentValue → Except Error AgentId
  | .row agent => .ok agent
  | .id text => .error (.valueError ("Cannot assign \"'" ++ text ++
      "'\": \"BlokAgentMapping.agent\" must be a \"Agent\" instance."))

namespace Boards

variable (s : Boards)

/-! ## Statements -/

def create (blok : Nat) : Boards :=
  { s with
    materializedBloks := s.materializedBloks.insert ⟨blok⟩
    placed := fun k row h => Table.isSome_get_insert (s.placed k row h)
    mapped := fun k row h => Table.isSome_get_insert (s.mapped k row h) }

def place (dashboard mblok : Nat) (h : (s.materializedBloks.get mblok).isSome = true) : Boards :=
  { s with
    dashboardPlacements := s.dashboardPlacements.insert ⟨dashboard, mblok⟩
    placed := fun k row hk => by
      rcases Table.get_insert_cases hk with ⟨_, rfl⟩ | ⟨_, hk⟩
      · exact h
      · exact s.placed k row hk }

/-- The materializations of a blok. -/
def materializations (blok : Nat) : List (Nat × MaterializedBlok) :=
  s.materializedBloks.select fun _ row => row.blok = blok

/-- `MaterializedBlok.objects.update_or_create(blok_id=...)`. Of an old row only
`updated_at` is written, which is left out. -/
def upsert (blok : Nat) : Except Error (Nat × Boards) :=
  match s.materializations blok with
  | [] =>
    if (s.bloks.get blok).isSome then .ok (s.materializedBloks.next, s.create blok)
    else .error .integrityError
  | [row] => .ok (row.1, s)
  | _ => .error (.multipleObjectsReturned "MaterializedBlok")

/-- `DashboardPlacement.objects.create(dashboard=..., blok=...)`. -/
def createPlacement (dashboard mblok : Nat) : Except Error (Unit × Boards) :=
  if h : (s.materializedBloks.get mblok).isSome = true then .ok ((), s.place dashboard mblok h)
  else .error .integrityError

/-- The mapping with this key, written over by `f`, or new. One key of a materialized blok has one
mapping. -/
def setMapping (k : Nat) (row : BlokAgentMapping) (t : Table BlokAgentMapping)
    (ht : ∀ j other, t.get j = some other → other = row ∨ s.blokAgentMappings.get j = some other) :
    Except Error (Unit × Boards) :=
  if h : (s.materializedBloks.get row.materializedBlok).isSome = true then
    if (s.agents.get row.agent).isSome && (s.blokAgentMappings.select fun j other =>
        j ≠ k && other.materializedBlok = row.materializedBlok && other.key = row.key).isEmpty then
      .ok ((),
        { s with
          blokAgentMappings := t
          mapped := fun j other hj => by
            rcases ht j other hj with rfl | hj
            · exact h
            · exact s.mapped j other hj })
    else .error .integrityError
  else .error .integrityError

/-- `BlokAgentMapping.objects.update_or_create(materialized_blok=..., dependency=...,
defaults=dict(agent=...))`. -/
def assignAgent (mblok dependency : Nat) (value : AgentValue) : Except Error (Unit × Boards) :=
  match s.blokAgentMappings.select fun _ row =>
      row.materializedBlok = mblok && row.dependency = some dependency with
  | [] => do
    let agent ← value.assign
    -- the key is left at its default
    let row : BlokAgentMapping := ⟨"general", agent, mblok, some dependency⟩
    s.setMapping s.blokAgentMappings.next row (s.blokAgentMappings.insert row) fun _ _ hj =>
      (Table.get_insert_cases hj).imp (·.2) (·.2)
  | [old] => do
    let agent ← value.assign
    let row := { old.2 with agent := agent }
    s.setMapping old.1 row (s.blokAgentMappings.put old.1 row) fun _ _ hj =>
      Table.get_put_cases hj
  | _ => .error (.multipleObjectsReturned "BlokAgentMapping")

/-- The deletion of a materialized blok takes its placements and its mappings with it. -/
def delete (mblok : Nat) : Boards :=
  { s with
    materializedBloks := s.materializedBloks.erase fun k _ => k = mblok
    dashboardPlacements := s.dashboardPlacements.erase fun _ row => row.blok = mblok
    blokAgentMappings := s.blokAgentMappings.erase fun _ row => row.materializedBlok = mblok
    placed := fun k row h => by
      obtain ⟨hrow, hne⟩ := Table.get_erase_eq_some_iff.mp h
      obtain ⟨m, hm⟩ := Option.isSome_iff_exists.mp (s.placed k row hrow)
      rw [Table.get_erase_eq_some_iff.mpr ⟨hm, hne⟩]
      rfl
    mapped := fun k row h => by
      obtain ⟨hrow, hne⟩ := Table.get_erase_eq_some_iff.mp h
      obtain ⟨m, hm⟩ := Option.isSome_iff_exists.mp (s.mapped k row hrow)
      rw [Table.get_erase_eq_some_iff.mpr ⟨hm, hne⟩]
      rfl }

/-- `mblok.save()`: all its columns are written. -/
def save (mblok : Nat) (row : MaterializedBlok) : Boards :=
  { s with
    materializedBloks := s.materializedBloks.put mblok row
    placed := fun k placement h => Table.isSome_get_put (s.placed k placement h)
    mapped := fun k mapping h => Table.isSome_get_put (s.mapped k mapping h) }

end Boards

open Attempt

abbrev Mutation (α : Type) := Attempt Boards Error α

/-- `mapped_deps`: of the mappings of one key the last. -/
def mappedDeps (mappings : Option (List BlokAgentMappingInput)) : Dict AgentValue :=
  Dict.update [] ((mappings.getD []).map fun dep => (dep.key, .id dep.agent))

-- how the database orders the dependencies of a blok, and how a primary key reads an id
variable (rank : Nat → Nat) (toPython : String → Except Error Nat)

def dependenciesOf (blok : Nat) : Mutation (List (Nat × BlokDependency)) :=
  look fun s => s.blokDependencies.selectBy rank fun _ row => row.blok = blok

/-- `if input.dashboard:` -/
def placeOn (mblok : Nat) (dashboard : Option String) : Mutation Unit :=
  match dashboard.filter (· ≠ "") with
  | none => pure ()
  | some text => do
    let id ← attempt (toPython text)
    if (← look fun s => (s.dashboards.get id).isNone) then raise (.doesNotExist "Dashboard")
    atomically (Boards.createPlacement · id mblok)

/-- One turn of the loop of `materializeBlok`, with `not_met`. -/
def meet (mblok : Nat) (mapped : Dict AgentValue) (notMet : Bool) (dep : Nat × BlokDependency) :
    Mutation Bool :=
  match mapped.get? dep.2.key with
  | some agent => do
    atomically (Boards.assignAgent · mblok dep.1 agent)
    return notMet
  | none => return true

def materializeBlok (input : MaterializeBlokInput) : Mutation Nat := do
  let blok ← attempt (toPython input.blok)
  let mblok ← atomically (Boards.upsert · blok)
  placeOn toPython mblok input.dashboard
  let notMet ← (← dependenciesOf rank blok).foldlM (meet mblok (mappedDeps input.agentMappings))
    false
  if notMet then
    write (Boards.delete · mblok)
    raise (.valueError ("Not all dependencies were met with the provided agent mappings. " ++
      "Materialization failed."))
  return mblok

/-- One turn of the loop of `updateMaterializedBlok`. -/
def remap (mblok : Nat) (mapped : Dict AgentValue) (dep : Nat × BlokDependency) : Mutation PUnit :=
  match mapped.get? dep.2.key with
  | some agent => atomically (Boards.assignAgent · mblok dep.1 agent)
  | none => raise (.valueError ("Not all dependencies were met with the provided agent " ++
      "mappings. Update failed."))

def updateMaterializedBlok (input : UpdateMaterializedBlokInput) : Mutation Nat := do
  let id ← attempt (toPython input.id)
  match ← look fun s => s.materializedBloks.get id with
  | none => raise (.valueError ("MaterializedBlok with id " ++ input.id ++ " does not exist."))
  | some row =>
    if input.agentMappings.isSome then
      (← dependenciesOf rank row.blok).forM (remap id (mappedDeps input.agentMappings))
    write (Boards.save · id row)
    return id

end Rekuest
