import Rekuest.Interleave.Upserts
import Rekuest.Registry.Runs

/-!
# Rekuest.Registry.Equipment

The locks, the states and the bloks of an agent, as upserts table by table.

* `lockUpsert`, `stateUpsert`, `blokUpsert` and the others: what is written for each declared part.
* `registerLocks_iff`, `registerStates_iff`, `registerBloks_ok`: the loops as upserts.
* `registerLocks_again`, `registerStates_again`, `registerBloks_again`: what the loops left they
  leave alone when they run again.
-/

namespace Rekuest
namespace Registration

open Fallible
open Interleave (Table)
open Interleave.Table (Upsert Upserts Overwrites)

variable {H : Hashing} {db db' db₂ : Database} {agentId : AgentId} {agent : Agent}
  {requester : Requester}

/-! ## Locks -/

def lockPlace (row : Lock) : AgentId × String := (row.agent, row.key)

def lockUpsert (agentId : AgentId) (input : LockInput) : Upsert (AgentId × String) Lock where
  place := (agentId, input.key)
  create := { agent := agentId, key := input.key, description := input.description }
  update row := { row with description := input.description }

theorem registerLock_iff {input : LockInput} : registerLock agentId db input = .ok db' ↔
    ∃ locks k, Table.upsert lockPlace (Error.multipleObjectsReturned "Lock") db.locks
      (lockUpsert agentId input) = .ok (locks, k) ∧ db' = { db with locks := locks } := by
  have hupsert := @Table.updateOrCreate_eq_upsert _ _ _ lockPlace
    (Error.multipleObjectsReturned "Lock") db.locks (lockUpsert agentId input) _
    (fun row => row.agent = agentId && row.key = input.key) fun row => by
      simp [lockPlace, lockUpsert, Prod.ext_iff]
  rw [← hupsert]
  constructor
  · intro h
    obtain ⟨stored, hstored, h⟩ := bind_ok_iff.mp h
    exact ⟨stored.1, stored.2, hstored, (pure_ok_iff.mp h).symm⟩
  · rintro ⟨locks, k, hstored, rfl⟩
    exact bind_ok_iff.mpr ⟨(locks, k), hstored, rfl⟩

def lockWrites (agentId : AgentId) (log : List (LockInput × Nat)) :
    List (Upsert (AgentId × String) Lock × Nat) :=
  log.map fun e => (lockUpsert agentId e.1, e.2)

theorem lockWrites_overwrites {log : List (LockInput × Nat)} :
    Overwrites lockPlace (lockWrites agentId log) := by
  refine Overwrites.of_family (f := lockUpsert agentId) (fun _ => rfl) (fun _ _ => rfl)
    (fun _ => rfl) (fun _ _ _ => rfl) fun w hw => ?_
  obtain ⟨e, _, rfl⟩ := List.mem_map.mp hw
  exact ⟨e.1, rfl⟩

theorem registerLocks_iff {inputs : List LockInput} :
    inputs.foldlM (registerLock agentId) db = .ok db' ↔
      ∃ log locks, log.map Prod.fst = inputs ∧
        Upserts lockPlace (Error.multipleObjectsReturned "Lock") db.locks (lockWrites agentId log)
          locks ∧ db' = { db with locks := locks } := by
  induction inputs generalizing db with
  | nil =>
    rw [foldlM_nil_iff]
    constructor
    · rintro rfl
      exact ⟨[], db.locks, rfl, .nil, rfl⟩
    · rintro ⟨log, locks, hlog, hupserts, rfl⟩
      rw [List.map_eq_nil_iff] at hlog
      subst hlog
      cases hupserts
      rfl
  | cons input inputs ih =>
    rw [foldlM_cons_iff]
    constructor
    · rintro ⟨c, hc, hrest⟩
      obtain ⟨locks, k, hupsert, rfl⟩ := registerLock_iff.mp hc
      obtain ⟨log, locks', rfl, hupserts, rfl⟩ := ih.mp hrest
      exact ⟨(input, k) :: log, locks', rfl, .cons hupsert hupserts, rfl⟩
    · rintro ⟨log, locks, hlog, hupserts, rfl⟩
      cases log with
      | nil => cases hlog
      | cons e log =>
        cases hlog
        cases hupserts with
        | cons hupsert hupserts =>
          exact ⟨_, registerLock_iff.mpr ⟨_, _, hupsert, rfl⟩,
            ih.mpr ⟨log, locks, rfl, hupserts, rfl⟩⟩

/-- A lock without the task that holds it. -/
def unheld (row : Lock) : Lock := { row with holdBy := none }

/-- The locks are the same, but for who holds them. -/
def SameLocks (t t' : Table Lock) : Prop := ∀ k, (t'.get k).map unheld = (t.get k).map unheld

theorem overwritten_holdBy {log : List (LockInput × Nat)} {k : Nat} {row : Lock}
    {task : Option TaskId} :
    Table.overwritten (lockWrites agentId log) k { row with holdBy := task } =
      { Table.overwritten (lockWrites agentId log) k row with holdBy := task } := by
  induction log generalizing row with
  | nil => rfl
  | cons e log ih =>
    simp only [Table.overwritten, lockWrites, List.map_cons, List.foldl_cons] at ih ⊢
    by_cases he : e.2 = k
    · rw [if_pos he, if_pos he]
      exact @ih ((lockUpsert agentId e.1).update row)
    · rw [if_neg he, if_neg he]
      exact ih

/-- The locks are as the loop left them, but for who holds them. -/
theorem registerLocks_again {inputs : List LockInput}
    (h : inputs.foldlM (registerLock agentId) db = .ok db') (hlocks : SameLocks db'.locks db₂.locks) :
    inputs.foldlM (registerLock agentId) db₂ = .ok db₂ := by
  obtain ⟨log, locks, hlog, hupserts, rfl⟩ := registerLocks_iff.mp h
  have hboth : ∀ k, (∀ b, db₂.locks.get k = some b → ∃ c, locks.get k = some c ∧
      b = { c with holdBy := b.holdBy }) ∧
      ((locks.get k).isSome = true → (db₂.locks.get k).isSome = true) := by
    intro k
    have hk := hlocks k
    dsimp only at hk
    cases hb : db₂.locks.get k with
    | none =>
      rw [hb] at hk
      cases hc : locks.get k with
      | none => simp
      | some c =>
        rw [hc] at hk
        cases hk
    | some b =>
      rw [hb] at hk
      obtain ⟨c, hc, hsame⟩ := Option.map_eq_some_iff.mp hk.symm
      refine ⟨fun b' hb' => ?_, fun _ => rfl⟩
      cases hb'
      simp only [unheld, Lock.mk.injEq] at hsame
      refine ⟨c, hc, ?_⟩
      rw [hsame.1, hsame.2.1, hsame.2.2.1]
  refine registerLocks_iff.mpr ⟨log, db₂.locks, hlog, ?_, rfl⟩
  refine hupserts.again lockWrites_overwrites (fun j b hj => ?_) fun w _ a ha => ?_
  · obtain ⟨c, hc, hsame⟩ := (hboth j).1 b hj
    refine ⟨c, hc, by rw [hsame]; rfl, fun hwritten => ?_⟩
    rw [hsame, overwritten_holdBy, hwritten]
  · exact (hboth w.2).2 (by rw [ha]; rfl)

/-! ## States -/

def statePlace (row : State) : String × AgentId := (row.interface, row.agent)

/-- What is written to the definition of a state. -/
def defineState (input : StateInput) (row : StateDefinition) : StateDefinition :=
  { row with
    name := input.name
    ports := input.ports
    description := "A state definition" }

def definitionUpsert (H : Hashing) (input : StateInput) : Upsert String StateDefinition where
  place := H.state input.ports
  create := defineState input ⟨"", H.state input.ports, [], ""⟩
  update := defineState input

/-- What is written to a state whose definition is `definition`. -/
def writeState (app : String) (input : StateInput) (definition : Nat) (row : State) : State :=
  { row with
    definition := definition
    key := some (orElse input.key input.interface)
    appIdentifier := some (orElse input.app app) }

def stateUpsert (agentId : AgentId) (app : String) (input : StateInput) (definition : Nat) :
    Upsert (String × AgentId) State where
  place := (input.interface, agentId)
  create := writeState app input definition { interface := input.interface, agent := agentId }
  update := writeState app input definition

theorem registerState_iff {input : StateInput} {r : Database × StateId} :
    registerState H agentId agent db input = .ok r ↔ ∃ definitions k states,
      Table.upsert StateDefinition.hash (Error.multipleObjectsReturned "StateDefinition")
        db.stateDefinitions (definitionUpsert H input) = .ok (definitions, k) ∧
      Table.upsert statePlace (Error.multipleObjectsReturned "State") db.states
        (stateUpsert agentId agent.app input k) = .ok (states, r.2) ∧
      r.1 = { db with stateDefinitions := definitions, states := states } := by
  have hstate : ∀ k, db.states.updateOrCreate (Error.multipleObjectsReturned "State")
      (fun row => row.interface = input.interface && row.agent = agentId)
      (stateUpsert agentId agent.app input k).create (stateUpsert agentId agent.app input k).update =
        Table.upsert statePlace (Error.multipleObjectsReturned "State") db.states
          (stateUpsert agentId agent.app input k) := by
    intro k
    exact Table.updateOrCreate_eq_upsert fun row => by simp [statePlace, stateUpsert, Prod.ext_iff]
  constructor
  · intro h
    obtain ⟨definition, hdefinition, h⟩ := bind_ok_iff.mp h
    obtain ⟨state, hstored, h⟩ := bind_ok_iff.mp h
    rw [← pure_ok_iff.mp h]
    exact ⟨definition.1, definition.2, state.1, hdefinition,
      (hstate definition.2).symm.trans hstored, rfl⟩
  · rintro ⟨definitions, k, states, hdefinition, hstored, hr⟩
    refine bind_ok_iff.mpr ⟨(definitions, k), hdefinition,
      bind_ok_iff.mpr ⟨(states, r.2), (hstate k).trans hstored, ?_⟩⟩
    rw [pure_ok_iff, ← hr]

/-- A declared state, the key of its definition and its own. -/
structure StateWrite where
  input : StateInput
  definition : Nat
  state : StateId

def definitionWrites (H : Hashing) (log : List StateWrite) :
    List (Upsert String StateDefinition × Nat) :=
  log.map fun e => (definitionUpsert H e.input, e.definition)

def stateWrites (agentId : AgentId) (app : String) (log : List StateWrite) :
    List (Upsert (String × AgentId) State × Nat) :=
  log.map fun e => (stateUpsert agentId app e.input e.definition, e.state)

theorem definitionWrites_overwrites {log : List StateWrite} :
    Overwrites StateDefinition.hash (definitionWrites H log) := by
  refine Overwrites.of_family (f := definitionUpsert H) (fun _ => rfl) (fun _ _ => rfl)
    (fun _ => rfl) (fun _ _ _ => rfl) fun w hw => ?_
  obtain ⟨e, _, rfl⟩ := List.mem_map.mp hw
  exact ⟨e.input, rfl⟩

theorem stateWrites_overwrites {app : String} {log : List StateWrite} :
    Overwrites statePlace (stateWrites agentId app log) := by
  refine Overwrites.of_family (f := fun e : StateWrite =>
    stateUpsert agentId app e.input e.definition) (fun _ => rfl) (fun _ _ => rfl) (fun _ => rfl)
    (fun _ _ _ => rfl) fun w hw => ?_
  obtain ⟨e, _, rfl⟩ := List.mem_map.mp hw
  exact ⟨e, rfl⟩

theorem registerStates_iff {inputs : List StateInput} {r : Database × List StateId} :
    registerStates H agentId agent db inputs = .ok r ↔ ∃ log definitions states,
      log.map StateWrite.input = inputs ∧ r.2 = log.map StateWrite.state ∧
      Upserts StateDefinition.hash (Error.multipleObjectsReturned "StateDefinition")
        db.stateDefinitions (definitionWrites H log) definitions ∧
      Upserts statePlace (Error.multipleObjectsReturned "State") db.states
        (stateWrites agentId agent.app log) states ∧
      r.1 = { db with stateDefinitions := definitions, states := states } := by
  induction inputs generalizing db r with
  | nil =>
    constructor
    · intro h
      cases h
      exact ⟨[], _, _, rfl, rfl, .nil, .nil, rfl⟩
    · rintro ⟨log, definitions, states, hlog, hids, hdefinitions, hstates, hr⟩
      rw [List.map_eq_nil_iff] at hlog
      subst hlog
      cases hdefinitions
      cases hstates
      have hsame : r = (db, []) := Prod.ext hr hids
      rw [hsame]
      rfl
  | cons input inputs ih =>
    constructor
    · intro h
      obtain ⟨stored, hstored, h⟩ := bind_ok_iff.mp h
      obtain ⟨rest, hrest, h⟩ := bind_ok_iff.mp h
      rw [← pure_ok_iff.mp h]
      obtain ⟨definitions, k, states, hdefinition, hstate, hdb⟩ := registerState_iff.mp hstored
      obtain ⟨log, definitions', states', rfl, hids, hdefinitions, hstates, hr⟩ := ih.mp hrest
      rw [hdb] at hdefinitions hstates hr
      refine ⟨⟨input, k, stored.2⟩ :: log, definitions', states', rfl, ?_,
        .cons hdefinition hdefinitions, .cons hstate hstates, hr⟩
      rw [List.map_cons, ← hids]
    · rintro ⟨log, definitions, states, hlog, hids, hdefinitions, hstates, hr⟩
      cases log with
      | nil => cases hlog
      | cons e log =>
        cases hlog
        cases hdefinitions with
        | cons hdefinition hdefinitions =>
          cases hstates with
          | cons hstate hstates =>
            refine bind_ok_iff.mpr ⟨(_, e.state),
              registerState_iff.mpr ⟨_, _, _, hdefinition, hstate, rfl⟩, ?_⟩
            refine bind_ok_iff.mpr ⟨(r.1, log.map StateWrite.state),
              ih.mpr ⟨log, definitions, states, rfl, rfl, hdefinitions, hstates, hr⟩, ?_⟩
            rw [pure_ok_iff]
            exact Prod.ext rfl hids.symm

/-- The states are as the loop left them, up to those that were not declared and are gone. -/
theorem registerStates_again {agent₂ : Agent} {inputs : List StateInput}
    {r : Database × List StateId} (h : registerStates H agentId agent db inputs = .ok r)
    (happ : agent₂.app = agent.app)
    (hdefinitions : db₂.stateDefinitions = r.1.stateDefinitions)
    (hsub : ∀ k row, db₂.states.get k = some row → r.1.states.get k = some row)
    (hkept : ∀ k ∈ r.2, ∀ row, r.1.states.get k = some row → db₂.states.get k = some row) :
    registerStates H agentId agent₂ db₂ inputs = .ok (db₂, r.2) := by
  obtain ⟨log, definitions, states, hlog, hids, hdefined, hstated, hr⟩ := registerStates_iff.mp h
  refine registerStates_iff.mpr ⟨log, db₂.stateDefinitions, db₂.states, hlog, hids, ?_, ?_, rfl⟩
  · rw [hdefinitions, hr]
    exact hdefined.again_self definitionWrites_overwrites
  · rw [happ]
    rw [hr] at hsub hkept
    refine hstated.again stateWrites_overwrites (fun j b hj => ⟨b, hsub j b hj, rfl, id⟩)
      fun w hw a ha => ?_
    obtain ⟨e, he, rfl⟩ := List.mem_map.mp hw
    have hmem : e.state ∈ r.2 := by
      rw [hids]
      exact List.mem_map_of_mem he
    rw [hkept e.state hmem a ha]
    rfl

/-! ## Bloks -/

def blokDependencyPlace (row : BlokDependency) : Nat × String := (row.blok, row.key)

def mappingPlace (row : BlokAgentMapping) : Nat × String × Option Nat :=
  (row.materializedBlok, row.key, row.dependency)

/-- One mapping for a key of a materialized blok. -/
def mappingKey (row : BlokAgentMapping) : Nat × String := (row.materializedBlok, row.key)

def catalogUpsert (input : BlokInput) : Upsert String UICatalog where
  place := orElse input.catalog "default"
  create := ⟨orElse input.catalog "default"⟩
  update := id

/-- What is written to a blok. -/
def writeBlok (creator : User) (input : BlokInput) (catalog : Nat) (demoState : Dict Json)
    (row : Blok) : Blok :=
  { row with
    components := input.components
    description := input.description
    creator := creator
    catalog := some catalog
    demoState := demoState }

def blokUpsert (creator : User) (input : BlokInput) (catalog : Nat) (demoState : Dict Json) :
    Upsert String Blok where
  place := input.key
  create := writeBlok creator input catalog demoState ⟨input.key, none, creator, none, [], []⟩
  update := writeBlok creator input catalog demoState

def materializedUpsert (blok : Nat) : Upsert Nat MaterializedBlok where
  place := blok
  create := ⟨blok⟩
  update := id

/-- What is written to a dependency of a blok. -/
def writeBlokDependency (dependency : AgentDependency) (row : BlokDependency) : BlokDependency :=
  { row with
    actionDemands := dependency.actionDependencies
    stateDemands := dependency.stateDependencies
    appFilter := dependency.app
    versionFilter := dependency.version }

def blokDependencyUpsert (blok : Nat) (dependency : AgentDependency) :
    Upsert (Nat × String) BlokDependency where
  place := (blok, dependency.key)
  create := writeBlokDependency dependency { blok := blok, key := dependency.key }
  update := writeBlokDependency dependency

def mappingUpsert (agentId : AgentId) (materialized : Nat) (key : String) (dependency : Nat) :
    Upsert (Nat × String × Option Nat) BlokAgentMapping where
  place := (materialized, key, some dependency)
  create := ⟨key, agentId, materialized, some dependency⟩
  update row := { row with agent := agentId }

/-- A declared dependency of a blok, the keys of its row and of its mapping. -/
structure BlokDependencyWrite where
  dependency : AgentDependency
  key : Nat
  mapping : Nat

/-- A declared blok, and the keys that its rows have. -/
structure BlokWrite where
  input : BlokInput
  demoState : Dict Json
  catalog : Nat
  blok : Nat
  materialized : Nat
  dependencies : List BlokDependencyWrite

section

variable {blok materialized : Nat} {dependency : AgentDependency}

theorem registerBlokDependency_iff :
    registerBlokDependency agentId blok materialized db dependency = .ok db' ↔
      ∃ dependencies k mappings j,
        Table.upsert blokDependencyPlace (Error.multipleObjectsReturned "BlokDependency")
          db.blokDependencies (blokDependencyUpsert blok dependency) = .ok (dependencies, k) ∧
        Table.upsert mappingPlace (Error.multipleObjectsReturned "BlokAgentMapping")
          db.blokAgentMappings (mappingUpsert agentId materialized dependency.key k) =
            .ok (mappings, j) ∧
        (∀ i row, db.blokAgentMappings.get i = some row →
          mappingKey row = (materialized, dependency.key) → i = j) ∧
        db' = { db with blokDependencies := dependencies, blokAgentMappings := mappings } := by
  have hdependency : db.blokDependencies.updateOrCreate
      (Error.multipleObjectsReturned "BlokDependency")
      (fun row => row.blok = blok && row.key = dependency.key)
      (blokDependencyUpsert blok dependency).create (blokDependencyUpsert blok dependency).update =
        Table.upsert blokDependencyPlace (Error.multipleObjectsReturned "BlokDependency")
          db.blokDependencies (blokDependencyUpsert blok dependency) :=
    Table.updateOrCreate_eq_upsert fun row => by
      simp [blokDependencyPlace, blokDependencyUpsert, Prod.ext_iff]
  have hmapping : ∀ k, db.blokAgentMappings.updateOrCreate
      (Error.multipleObjectsReturned "BlokAgentMapping")
      (fun row => row.materializedBlok = materialized && row.key = dependency.key &&
        row.dependency = some k)
      (mappingUpsert agentId materialized dependency.key k).create
      (mappingUpsert agentId materialized dependency.key k).update =
        Table.upsert mappingPlace (Error.multipleObjectsReturned "BlokAgentMapping")
          db.blokAgentMappings (mappingUpsert agentId materialized dependency.key k) :=
    fun k => Table.updateOrCreate_eq_upsert fun row => by
      simp [mappingPlace, mappingUpsert, Prod.ext_iff, Bool.and_assoc]
  have hcheck : ∀ j, (db.blokAgentMappings.select fun i row => i ≠ j &&
      row.materializedBlok = materialized && row.key = dependency.key).isEmpty = true ↔
        ∀ i row, db.blokAgentMappings.get i = some row →
          mappingKey row = (materialized, dependency.key) → i = j := by
    intro j
    rw [List.isEmpty_iff, List.eq_nil_iff_forall_not_mem]
    constructor
    · intro hnone i row hrow hkey
      by_contra hne
      refine hnone (i, row) (Table.mem_select.mpr ⟨hrow, ?_⟩)
      obtain ⟨hmaterialized, hkey⟩ := Prod.mk.inj hkey
      simp [hne, hmaterialized, hkey]
    · intro honly w hw
      obtain ⟨hrow, hmeets⟩ := Table.mem_select.mp hw
      simp only [Bool.and_eq_true, decide_eq_true_eq] at hmeets
      exact hmeets.1.1 (honly w.1 w.2 hrow (Prod.ext hmeets.1.2 hmeets.2))
  constructor
  · intro h
    obtain ⟨dep, hdep, h⟩ := bind_ok_iff.mp h
    obtain ⟨mapping, hmap, h⟩ := bind_ok_iff.mp h
    split at h
    · rename_i hempty
      rw [← pure_ok_iff.mp h]
      exact ⟨dep.1, dep.2, mapping.1, mapping.2, hdependency.symm.trans hdep,
        (hmapping dep.2).symm.trans hmap, (hcheck mapping.2).mp hempty, rfl⟩
    · cases h
  · rintro ⟨dependencies, k, mappings, j, hdep, hmap, honly, rfl⟩
    refine bind_ok_iff.mpr ⟨(dependencies, k), hdependency.trans hdep,
      bind_ok_iff.mpr ⟨(mappings, j), (hmapping k).trans hmap, ?_⟩⟩
    rw [if_pos ((hcheck j).mpr honly)]
    rfl

def dependencyWrites (blok : Nat) (log : List BlokDependencyWrite) :
    List (Upsert (Nat × String) BlokDependency × Nat) :=
  log.map fun e => (blokDependencyUpsert blok e.dependency, e.key)

def mappingWrites (agentId : AgentId) (materialized : Nat) (log : List BlokDependencyWrite) :
    List (Upsert (Nat × String × Option Nat) BlokAgentMapping × Nat) :=
  log.map fun e => (mappingUpsert agentId materialized e.dependency.key e.key, e.mapping)

theorem blokDependencies_overwrites {us : List (Upsert (Nat × String) BlokDependency × Nat)}
    (hus : ∀ w ∈ us, ∃ blok dependency, w.1 = blokDependencyUpsert blok dependency) :
    Overwrites blokDependencyPlace us := by
  refine Overwrites.of_family (f := fun e : Nat × AgentDependency => blokDependencyUpsert e.1 e.2)
    (fun _ => rfl) (fun _ _ => rfl) (fun _ => rfl) (fun _ _ _ => rfl) fun w hw => ?_
  obtain ⟨blok, dependency, h⟩ := hus w hw
  exact ⟨(blok, dependency), h⟩

theorem mappings_overwrites
    {us : List (Upsert (Nat × String × Option Nat) BlokAgentMapping × Nat)}
    (hus : ∀ w ∈ us, ∃ materialized key dependency,
      w.1 = mappingUpsert agentId materialized key dependency) : Overwrites mappingPlace us := by
  refine Overwrites.of_family (f := fun e : Nat × String × Nat =>
    mappingUpsert agentId e.1 e.2.1 e.2.2) (fun _ => rfl) (fun _ _ => rfl) (fun _ => rfl)
    (fun _ _ _ => rfl) fun w hw => ?_
  obtain ⟨materialized, key, dependency, h⟩ := hus w hw
  exact ⟨(materialized, key, dependency), h⟩

theorem mem_mappingWrites {log : List BlokDependencyWrite}
    {w : Upsert (Nat × String × Option Nat) BlokAgentMapping × Nat}
    (hw : w ∈ mappingWrites agentId materialized log) :
    ∃ materialized key dependency, w.1 = mappingUpsert agentId materialized key dependency := by
  obtain ⟨e, _, rfl⟩ := List.mem_map.mp hw
  exact ⟨_, _, _, rfl⟩

theorem mappingKey_update
    {w : Upsert (Nat × String × Option Nat) BlokAgentMapping × Nat} (h : ∃ materialized key
      dependency, w.1 = mappingUpsert agentId materialized key dependency)
    (row : BlokAgentMapping) : mappingKey (w.1.update row) = mappingKey row := by
  obtain ⟨_, _, _, h⟩ := h
  rw [h]
  rfl

/-- The loop over the dependencies of a blok. The mappings stay unique. -/
theorem registerBlokDependencies_ok {dependencies : List AgentDependency}
    (h : dependencies.foldlM (registerBlokDependency agentId blok materialized) db = .ok db')
    (hunique : Table.UniqueOn mappingKey db.blokAgentMappings) :
    ∃ log, log.map BlokDependencyWrite.dependency = dependencies ∧
      Upserts blokDependencyPlace (Error.multipleObjectsReturned "BlokDependency")
        db.blokDependencies (dependencyWrites blok log) db'.blokDependencies ∧
      Upserts mappingPlace (Error.multipleObjectsReturned "BlokAgentMapping")
        db.blokAgentMappings (mappingWrites agentId materialized log) db'.blokAgentMappings ∧
      Table.UniqueOn mappingKey db'.blokAgentMappings ∧
      db' = { db with
        blokDependencies := db'.blokDependencies
        blokAgentMappings := db'.blokAgentMappings } := by
  induction dependencies generalizing db with
  | nil =>
    rw [foldlM_nil_iff] at h
    subst h
    exact ⟨[], rfl, .nil, .nil, hunique, rfl⟩
  | cons dependency dependencies ih =>
    obtain ⟨c, hc, hrest⟩ := foldlM_cons_iff.mp h
    obtain ⟨deps, k, mappings, j, hdep, hmap, honly, rfl⟩ := registerBlokDependency_iff.mp hc
    have hmappings : Table.UniqueOn mappingKey mappings := by
      rcases Table.upsert_cases hmap with ⟨_, rfl, rfl⟩ | ⟨row, hrow, _, rfl⟩
      · refine hunique.insert fun i row hi hkey => ?_
        have hnext := honly i row hi hkey
        have hlt := Table.lt_next hi
        omega
      · exact hunique.modify fun _ _ => rfl
    obtain ⟨log, hlog, hdeps, hmaps, hlast, hdb⟩ := ih hrest hmappings
    refine ⟨⟨dependency, k, j⟩ :: log, ?_, .cons hdep hdeps, .cons hmap hmaps, hlast, hdb⟩
    rw [List.map_cons, hlog]

/-- The upserts of the dependencies are a run of the loop, if the mappings are unique after it. -/
theorem registerBlokDependencies_of_upserts {log : List BlokDependencyWrite}
    {dependencies : Table BlokDependency} {mappings : Table BlokAgentMapping}
    (hdependencies : Upserts blokDependencyPlace (Error.multipleObjectsReturned "BlokDependency")
      db.blokDependencies (dependencyWrites blok log) dependencies)
    (hmappings : Upserts mappingPlace (Error.multipleObjectsReturned "BlokAgentMapping")
      db.blokAgentMappings (mappingWrites agentId materialized log) mappings)
    (hunique : Table.UniqueOn mappingKey mappings) :
    (log.map BlokDependencyWrite.dependency).foldlM
        (registerBlokDependency agentId blok materialized) db =
      .ok { db with blokDependencies := dependencies, blokAgentMappings := mappings } := by
  induction log generalizing db with
  | nil =>
    cases hdependencies
    cases hmappings
    rfl
  | cons e log ih =>
    have hall := hmappings
    cases hdependencies with
    | cons hdep hdependencies =>
      cases hmappings with
      | cons hmap hmappings =>
        refine foldlM_cons_iff.mpr ⟨_, registerBlokDependency_iff.mpr
          ⟨_, _, _, _, hdep, hmap, fun i row hi hkey => ?_, rfl⟩, ih hdependencies hmappings⟩
        -- both rows are there in the end
        have hoverwrites : Overwrites mappingPlace (mappingWrites agentId materialized (e :: log)) :=
          mappings_overwrites fun w hw => mem_mappingWrites hw
        obtain ⟨b, hb, hbkey⟩ : ∃ b, mappings.get i = some b ∧ mappingKey b = mappingKey row :=
          hall.kept (fun w hw a => mappingKey_update (mem_mappingWrites hw) a) hi
        obtain ⟨⟨c, hc, hcplace⟩, _⟩ := hall.present hoverwrites _ List.mem_cons_self
        refine hunique i e.mapping b c hb hc ?_
        obtain ⟨hmaterialized, hrest⟩ := Prod.mk.inj hcplace
        obtain ⟨hckey, _⟩ := Prod.mk.inj hrest
        rw [hbkey, hkey]
        exact (Prod.ext hmaterialized hckey).symm

end

def catalogWrites (log : List BlokWrite) : List (Upsert String UICatalog × Nat) :=
  log.map fun e => (catalogUpsert e.input, e.catalog)

def blokWrites (creator : User) (log : List BlokWrite) : List (Upsert String Blok × Nat) :=
  log.map fun e => (blokUpsert creator e.input e.catalog e.demoState, e.blok)

def materializedWrites (log : List BlokWrite) : List (Upsert Nat MaterializedBlok × Nat) :=
  log.map fun e => (materializedUpsert e.blok, e.materialized)

def blokDependencyWrites (log : List BlokWrite) : List (Upsert (Nat × String) BlokDependency × Nat) :=
  log.flatMap fun e => dependencyWrites e.blok e.dependencies

def blokMappingWrites (agentId : AgentId) (log : List BlokWrite) :
    List (Upsert (Nat × String × Option Nat) BlokAgentMapping × Nat) :=
  log.flatMap fun e => mappingWrites agentId e.materialized e.dependencies

/-- The log is of these inputs. -/
def LogOf (inputs : List BlokInput) (log : List BlokWrite) : Prop :=
  log.map BlokWrite.input = inputs ∧ ∀ e ∈ log, e.input.demoState = some e.demoState ∧
    e.dependencies.map BlokDependencyWrite.dependency = e.input.dependencies

/-- The bloks of `db'` are those of `db` after the writes. -/
structure BloksWritten (creator : User) (agentId : AgentId) (log : List BlokWrite)
    (db db' : Database) : Prop where
  catalogs : Upserts UICatalog.name (Error.multipleObjectsReturned "UICatalog") db.uiCatalogs
    (catalogWrites log) db'.uiCatalogs
  bloks : Upserts Blok.name (Error.multipleObjectsReturned "Blok") db.bloks
    (blokWrites creator log) db'.bloks
  materialized : Upserts MaterializedBlok.blok (Error.multipleObjectsReturned "MaterializedBlok")
    db.materializedBloks (materializedWrites log) db'.materializedBloks
  dependencies : Upserts blokDependencyPlace (Error.multipleObjectsReturned "BlokDependency")
    db.blokDependencies (blokDependencyWrites log) db'.blokDependencies
  mappings : Upserts mappingPlace (Error.multipleObjectsReturned "BlokAgentMapping")
    db.blokAgentMappings (blokMappingWrites agentId log) db'.blokAgentMappings
  frame : db' = { db with
    uiCatalogs := db'.uiCatalogs
    bloks := db'.bloks
    materializedBloks := db'.materializedBloks
    blokDependencies := db'.blokDependencies
    blokAgentMappings := db'.blokAgentMappings }

/-- One blok. -/
theorem registerBlok_ok {input : BlokInput} (h : registerBlok requester agentId db input = .ok db')
    (hunique : Table.UniqueOn mappingKey db.blokAgentMappings) :
    Table.UniqueOn mappingKey db'.blokAgentMappings ∧
      ∃ e, LogOf [input] [e] ∧ BloksWritten requester.user agentId [e] db db' := by
  obtain ⟨catalog, hcatalog, h⟩ := bind_ok_iff.mp h
  obtain ⟨demoState, hdemo, h⟩ := bind_ok_iff.mp h
  obtain ⟨blok, hblok, h⟩ := bind_ok_iff.mp h
  obtain ⟨materialized, hmaterialized, h⟩ := bind_ok_iff.mp h
  rw [orRaise_ok_iff] at hdemo
  obtain ⟨log, hlog, hdependencies, hmappings, hlast, hdb⟩ := registerBlokDependencies_ok h hunique
  refine ⟨hlast, ⟨input, demoState, catalog.2, blok.2, materialized.2, log⟩,
    ⟨rfl, fun e he => ?_⟩, ?_⟩
  · rw [List.mem_singleton.mp he]
    exact ⟨hdemo, hlog⟩
  · have hc : db'.uiCatalogs = catalog.1 := by rw [hdb]
    have hb : db'.bloks = blok.1 := by rw [hdb]
    have hm : db'.materializedBloks = materialized.1 := by rw [hdb]
    refine {
      catalogs := ?_
      bloks := ?_
      materialized := ?_
      dependencies := ?_
      mappings := ?_
      frame := ?_ }
    · rw [hc]
      exact .cons hcatalog .nil
    · rw [hb]
      exact .cons hblok .nil
    · rw [hm]
      exact .cons hmaterialized .nil
    · simpa [blokDependencyWrites] using hdependencies
    · simpa [blokMappingWrites] using hmappings
    · rw [hc, hb, hm]
      exact hdb

theorem BloksWritten.append {creator : User} {log log' : List BlokWrite} {db'' : Database}
    (h : BloksWritten creator agentId log db db') (h' : BloksWritten creator agentId log' db' db'') :
    BloksWritten creator agentId (log ++ log') db db'' where
  catalogs := by
    rw [catalogWrites, List.map_append]
    exact h.catalogs.append h'.catalogs
  bloks := by
    rw [blokWrites, List.map_append]
    exact h.bloks.append h'.bloks
  materialized := by
    rw [materializedWrites, List.map_append]
    exact h.materialized.append h'.materialized
  dependencies := by
    rw [blokDependencyWrites, List.flatMap_append]
    exact h.dependencies.append h'.dependencies
  mappings := by
    rw [blokMappingWrites, List.flatMap_append]
    exact h.mappings.append h'.mappings
  frame := by
    rw [h'.frame, h.frame]

/-- The loop over the bloks. -/
theorem registerBloks_ok {inputs : List BlokInput}
    (h : inputs.foldlM (registerBlok requester agentId) db = .ok db')
    (hunique : Table.UniqueOn mappingKey db.blokAgentMappings) :
    Table.UniqueOn mappingKey db'.blokAgentMappings ∧
      ∃ log, LogOf inputs log ∧ BloksWritten requester.user agentId log db db' := by
  induction inputs generalizing db with
  | nil =>
    rw [foldlM_nil_iff] at h
    subst h
    exact ⟨hunique, [], ⟨rfl, fun e he => (by cases he)⟩, ⟨.nil, .nil, .nil, .nil, .nil, rfl⟩⟩
  | cons input inputs ih =>
    obtain ⟨c, hc, hrest⟩ := foldlM_cons_iff.mp h
    obtain ⟨hunique', e, hlog, hwritten⟩ := registerBlok_ok hc hunique
    obtain ⟨hlast, log, hlog', hwritten'⟩ := ih hrest hunique'
    refine ⟨hlast, e :: log, ⟨?_, fun e' he' => ?_⟩, hwritten.append hwritten'⟩
    · rw [List.map_cons, hlog'.1, (List.cons.inj hlog.1).1]
    · rcases List.mem_cons.mp he' with rfl | he'
      · exact hlog.2 _ List.mem_cons_self
      · exact hlog'.2 e' he'

theorem mem_blokMappingWrites {log : List BlokWrite}
    {w : Upsert (Nat × String × Option Nat) BlokAgentMapping × Nat}
    (hw : w ∈ blokMappingWrites agentId log) :
    ∃ materialized key dependency, w.1 = mappingUpsert agentId materialized key dependency := by
  obtain ⟨e, _, hw⟩ := List.mem_flatMap.mp hw
  exact mem_mappingWrites hw

/-- The writes are a run of the loop, if the mappings are unique after it. -/
theorem registerBloks_of_written {inputs : List BlokInput} {log : List BlokWrite}
    (hlog : LogOf inputs log) (h : BloksWritten requester.user agentId log db db')
    (hunique : Table.UniqueOn mappingKey db'.blokAgentMappings) :
    inputs.foldlM (registerBlok requester agentId) db = .ok db' := by
  induction log generalizing db inputs with
  | nil =>
    rw [← hlog.1, List.map_nil, foldlM_nil_iff, h.frame]
    rw [← Table.upserts_nil_iff.mp h.catalogs, ← Table.upserts_nil_iff.mp h.bloks,
      ← Table.upserts_nil_iff.mp h.materialized, ← Table.upserts_nil_iff.mp h.dependencies,
      ← Table.upserts_nil_iff.mp h.mappings]
  | cons e log ih =>
    obtain ⟨hdemo, hdeps⟩ := hlog.2 e List.mem_cons_self
    obtain ⟨catalogs, hcatalog, hcatalogs⟩ := Table.upserts_cons_iff.mp h.catalogs
    obtain ⟨bloks, hblok, hbloks⟩ := Table.upserts_cons_iff.mp h.bloks
    obtain ⟨materialized, hmaterial, hmaterialized⟩ := Table.upserts_cons_iff.mp h.materialized
    obtain ⟨dependencies, hfirst, hdependencies⟩ := h.dependencies.split
    obtain ⟨mappings, hmapped, hmappings⟩ := h.mappings.split
    have hmid : Table.UniqueOn mappingKey mappings :=
      hmappings.unique (fun w hw a => mappingKey_update (mem_blokMappingWrites hw) a) hunique
    rw [← hlog.1, List.map_cons]
    refine foldlM_cons_iff.mpr ⟨{ db with
      uiCatalogs := catalogs
      bloks := bloks
      materializedBloks := materialized
      blokDependencies := dependencies
      blokAgentMappings := mappings }, ?_, ih ⟨rfl, fun e' he' => ?_⟩ ?_⟩
    · refine bind_ok_iff.mpr ⟨(catalogs, e.catalog), hcatalog,
        bind_ok_iff.mpr ⟨e.demoState, orRaise_ok_iff.mpr hdemo,
          bind_ok_iff.mpr ⟨(bloks, e.blok), hblok,
            bind_ok_iff.mpr ⟨(materialized, e.materialized), hmaterial, ?_⟩⟩⟩⟩
      rw [← hdeps]
      exact registerBlokDependencies_of_upserts hfirst hmapped hmid
    · exact hlog.2 e' (List.mem_cons_of_mem _ he')
    · exact ⟨hcatalogs, hbloks, hmaterialized, hdependencies, hmappings, h.frame⟩

/-- The bloks are as the loop left them. -/
theorem registerBloks_again {inputs : List BlokInput}
    (h : inputs.foldlM (registerBlok requester agentId) db = .ok db')
    (hunique : Table.UniqueOn mappingKey db.blokAgentMappings)
    (hcatalogs : db₂.uiCatalogs = db'.uiCatalogs) (hbloks : db₂.bloks = db'.bloks)
    (hmaterialized : db₂.materializedBloks = db'.materializedBloks)
    (hdependencies : db₂.blokDependencies = db'.blokDependencies)
    (hmappings : db₂.blokAgentMappings = db'.blokAgentMappings) :
    inputs.foldlM (registerBlok requester agentId) db₂ = .ok db₂ := by
  obtain ⟨hlast, log, hlog, hwritten⟩ := registerBloks_ok h hunique
  rw [← hmappings] at hlast
  refine registerBloks_of_written hlog {
    catalogs := ?_
    bloks := ?_
    materialized := ?_
    dependencies := ?_
    mappings := ?_
    frame := rfl } hlast
  · rw [hcatalogs]
    refine hwritten.catalogs.again_self (Overwrites.of_family (f := catalogUpsert) (fun _ => rfl)
      (fun _ _ => rfl) (fun _ => rfl) (fun _ _ _ => rfl) fun w hw => ?_)
    obtain ⟨e, _, rfl⟩ := List.mem_map.mp hw
    exact ⟨e.input, rfl⟩
  · rw [hbloks]
    refine hwritten.bloks.again_self (Overwrites.of_family (f := fun e : BlokWrite =>
      blokUpsert requester.user e.input e.catalog e.demoState) (fun _ => rfl) (fun _ _ => rfl)
        (fun _ => rfl) (fun _ _ _ => rfl) fun w hw => ?_)
    obtain ⟨e, _, rfl⟩ := List.mem_map.mp hw
    exact ⟨e, rfl⟩
  · rw [hmaterialized]
    refine hwritten.materialized.again_self (Overwrites.of_family (f := materializedUpsert)
      (fun _ => rfl) (fun _ _ => rfl) (fun _ => rfl) (fun _ _ _ => rfl) fun w hw => ?_)
    obtain ⟨e, _, rfl⟩ := List.mem_map.mp hw
    exact ⟨e.blok, rfl⟩
  · rw [hdependencies]
    refine hwritten.dependencies.again_self (blokDependencies_overwrites fun w hw => ?_)
    obtain ⟨e, _, hw⟩ := List.mem_flatMap.mp hw
    obtain ⟨d, _, rfl⟩ := List.mem_map.mp hw
    exact ⟨e.blok, d.dependency, rfl⟩
  · rw [hmappings]
    exact hwritten.mappings.again_self (mappings_overwrites fun w hw => mem_blokMappingWrites hw)

/-- The agents, the locks, and the states with their definitions are those of before. -/
structure OnlyBloks (db db' : Database) : Prop where
  agents : db'.agents = db.agents
  locks : db'.locks = db.locks
  states : db'.states = db.states
  definitions : db'.stateDefinitions = db.stateDefinitions

theorem OnlyBloks.refl : OnlyBloks db db := ⟨rfl, rfl, rfl, rfl⟩

theorem OnlyBloks.trans {db'' : Database} (h : OnlyBloks db db') (h' : OnlyBloks db' db'') :
    OnlyBloks db db'' where
  agents := h'.agents.trans h.agents
  locks := h'.locks.trans h.locks
  states := h'.states.trans h.states
  definitions := h'.definitions.trans h.definitions

theorem registerBlok_onlyBloks {input : BlokInput}
    (h : registerBlok requester agentId db input = .ok db') : OnlyBloks db db' := by
  obtain ⟨catalog, _, h⟩ := bind_ok_iff.mp h
  obtain ⟨demoState, _, h⟩ := bind_ok_iff.mp h
  obtain ⟨blok, _, h⟩ := bind_ok_iff.mp h
  obtain ⟨materialized, _, h⟩ := bind_ok_iff.mp h
  have hrest := foldlM_related (fun _ => OnlyBloks.refl) (fun _ _ _ => OnlyBloks.trans)
    (fun db₀ dependency db₁ hturn => ?_) h
  · exact ⟨hrest.agents, hrest.locks, hrest.states, hrest.definitions⟩
  · obtain ⟨_, _, _, _, _, _, _, rfl⟩ := registerBlokDependency_iff.mp hturn
    exact ⟨rfl, rfl, rfl, rfl⟩

theorem registerBloks_onlyBloks {inputs : List BlokInput}
    (h : inputs.foldlM (registerBlok requester agentId) db = .ok db') : OnlyBloks db db' :=
  foldlM_related (fun _ => OnlyBloks.refl) (fun _ _ _ => OnlyBloks.trans)
    (fun _ _ _ => registerBlok_onlyBloks) h

/-! ## What the implementations leave alone -/

/-- The locks, the states and the bloks are those of before. A lock may have lost its holder. -/
structure SameEquipment (db db' : Database) : Prop where
  agents : db'.agents = db.agents
  locks : SameLocks db.locks db'.locks
  states : db'.states = db.states
  definitions : db'.stateDefinitions = db.stateDefinitions
  catalogs : db'.uiCatalogs = db.uiCatalogs
  bloks : db'.bloks = db.bloks
  materialized : db'.materializedBloks = db.materializedBloks
  dependencies : db'.blokDependencies = db.blokDependencies
  mappings : db'.blokAgentMappings = db.blokAgentMappings

theorem SameEquipment.refl : SameEquipment db db := ⟨rfl, fun _ => rfl, rfl, rfl, rfl, rfl, rfl, rfl, rfl⟩

theorem SameEquipment.trans {db'' : Database} (h : SameEquipment db db')
    (h' : SameEquipment db' db'') : SameEquipment db db'' where
  agents := h'.agents.trans h.agents
  locks k := (h'.locks k).trans (h.locks k)
  states := h'.states.trans h.states
  definitions := h'.definitions.trans h.definitions
  catalogs := h'.catalogs.trans h.catalogs
  bloks := h'.bloks.trans h.bloks
  materialized := h'.materialized.trans h.materialized
  dependencies := h'.dependencies.trans h.dependencies
  mappings := h'.mappings.trans h.mappings

theorem sameEquipment_remove {d : Doomed} : SameEquipment db (db.remove d) where
  agents := rfl
  locks k := by
    show ((db.locks.get k).map fun row => { row with
      holdBy := row.holdBy.filter fun t => !d.task t }).map unheld = (db.locks.get k).map unheld
    cases db.locks.get k <;> rfl
  states := rfl
  definitions := rfl
  catalogs := rfl
  bloks := rfl
  materialized := rfl
  dependencies := rfl
  mappings := rfl

/-- The actions, their ports and the collections are none of the equipment. -/
theorem sameEquipment_of_clearActions (h : clearActions db' = clearActions db) :
    SameEquipment db db' where
  agents := (congrArg Database.agents h :)
  locks k := by rw [show db'.locks = db.locks from (congrArg Database.locks h :)]
  states := (congrArg Database.states h :)
  definitions := (congrArg Database.stateDefinitions h :)
  catalogs := (congrArg Database.uiCatalogs h :)
  bloks := (congrArg Database.bloks h :)
  materialized := (congrArg Database.materializedBloks h :)
  dependencies := (congrArg Database.blokDependencies h :)
  mappings := (congrArg Database.blokAgentMappings h :)

theorem sameEquipment_of_clearImplementations
    (h : clearImplementations db' = clearImplementations db) : SameEquipment db db' where
  agents := (congrArg Database.agents h :)
  locks k := by rw [show db'.locks = db.locks from (congrArg Database.locks h :)]
  states := (congrArg Database.states h :)
  definitions := (congrArg Database.stateDefinitions h :)
  catalogs := (congrArg Database.uiCatalogs h :)
  bloks := (congrArg Database.bloks h :)
  materialized := (congrArg Database.materializedBloks h :)
  dependencies := (congrArg Database.blokDependencies h :)
  mappings := (congrArg Database.blokAgentMappings h :)

theorem sameEquipment_register {input : ImplementationInput} {found : Option (Instance Action)}
    {current : Option ImplementationRef} {r : Registered}
    (h : register H db agentId agent input found current = .ok r)
    (hlook : Looked db agentId agent input found current) : SameEquipment db r.db := by
  have hcurrent : ∀ ref, current = some ref → ref.1 < db.implementations.next := by
    intro ref href
    obtain ⟨_, _, row, hrow, _⟩ := hlook.current ref href
    exact Table.lt_next hrow
  obtain ⟨k, db₁, db₂, _, hregistered, hdropped, hinstalled⟩ := register_ok h hlook.fits hcurrent
  have haction := sameEquipment_of_clearActions (registerAction_frame hregistered hlook.fits)
  have hdrop : SameEquipment db₁ db₂ := by
    by_cases habandons : Abandons db₁ current k
    · obtain ⟨ref, href, _⟩ := id habandons
      rw [(hdropped.deleted ref href habandons).2]
      exact sameEquipment_remove
    · rw [(hdropped.kept habandons).1]
      exact .refl
  exact (haction.trans hdrop).trans (sameEquipment_of_clearImplementations hinstalled.frame)

theorem sameEquipment_batch {inputs : List ImplementationInput} {batch : Batch}
    (h : registerBatch H db agentId agent inputs = .ok batch) : SameEquipment db batch.db := by
  refine registerBatch_invariant (I := SameEquipment db) ?_ .refl h
  intro input _ db₀ found current r k db₁ hr hlook _ hdb
  exact hdb.trans (sameEquipment_register hr hlook)

theorem sameEquipment_reap {kept : List ImplementationId}
    (h : reapImplementations db agentId kept = .ok db') : SameEquipment db db' := by
  rw [(Database.delete_ok h).1]
  exact sameEquipment_remove

end Registration
end Rekuest
