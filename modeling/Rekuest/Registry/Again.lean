import Rekuest.Registry.Described
import Rekuest.Registry.Equipment

/-!
# Rekuest.Registry.Again

The same registration a second time: the locks, the states and the bloks stay as the first left
them.

* `agentOf?_upsertAgent`: the agent of a call is the one of the next call.
* `Equipped`: a call, and what of the equipment each of its parts changes.
* `reapStates_again`: what was reaped is not there to be reaped again.
* `implementAgent_again`: the second call.
-/

namespace Rekuest
namespace Registration

open Fallible
open Interleave (Table)

variable {H : Hashing} {db : Database} {agentId : AgentId} {agent : Agent}
  {requester : Requester}

/-! ## The agent -/

theorem keys_select_modify {α : Type} {t : Table α} {k : Nat} {f : α → α} {p : Nat → α → Bool}
    (hf : ∀ a, t.get k = some a → p k (f a) = p k a) :
    ((t.modify k f).select p).map Prod.fst = (t.select p).map Prod.fst := by
  unfold Table.select
  rw [Table.next_modify, List.map_filterMap, List.map_filterMap]
  congr 1
  funext j
  show Option.map Prod.fst (((t.modify k f).get j).bind _) = Option.map Prod.fst ((t.get j).bind _)
  rw [Table.get_modify]
  by_cases hj : j = k
  · subst hj
    rw [if_pos rfl]
    cases ha : t.get j with
    | none => rfl
    | some a =>
      have hp := hf a ha
      by_cases hpa : p j a = true <;> simp [hp, hpa]
  · rw [if_neg hj]

/-- The agent of a call is the one of the next call. -/
theorem agentOf?_upsertAgent {name : String} {hash : Option String} :
    (upsertAgent db requester name hash).1.agentOf? requester.toAgentIdentity =
      some (upsertAgent db requester name hash).2 := by
  unfold upsertAgent
  dsimp only
  split
  · rename_i id hid
    rw [← hid]
    unfold Database.agentOf?
    rw [← List.head?_map, ← List.head?_map, keys_select_modify]
    intro a _
    rfl
  · rename_i hnone
    unfold Database.agentOf? at hnone ⊢
    rw [Option.map_eq_none_iff, List.head?_eq_none_iff] at hnone
    rw [Table.select_insert, hnone]
    simp [AgentIdentity.newAgent]

/-! ## The parts of a call -/

/-- A call, part by part. -/
structure Equipped (H : Hashing) (db : Database) (requester : Requester) (input : AgentInput)
    (uuid : String) (r : Database × AgentId) (upserted : Database × AgentId) (agent : Agent)
    (locked : Database) (batch : Batch) (states : Database × List StateId)
    (reaped : Database) : Prop where
  upserts : upsertAgent db requester (orElse input.name requester.client.clientId)
    (some (orElse input.hash uuid)) = upserted
  found : upserted.1.agents.get upserted.2 = some agent
  locks : input.locks.foldlM (registerLock upserted.2) upserted.1 = .ok locked
  registers : registerBatch H locked upserted.2 agent input.implementations = .ok batch
  stated : registerStates H upserted.2 agent batch.db input.states = .ok states
  reaps : reapImplementations (reapStates states.1 upserted.2 states.2) upserted.2 batch.created =
    .ok reaped
  bloks : input.bloks.foldlM (registerBlok requester upserted.2) reaped = .ok r.1
  agentId : r.2 = upserted.2

variable {input : AgentInput} {uuid : String} {r upserted : Database × AgentId}
  {locked reaped : Database} {batch : Batch} {states : Database × List StateId}

theorem equipped_of_implementAgent (h : implementAgent H db requester input uuid = .ok r) :
    ∃ upserted agent locked batch states reaped,
      Equipped H db requester input uuid r upserted agent locked batch states reaped := by
  obtain ⟨begun, hbegun, h⟩ := bind_ok_iff.mp h
  obtain ⟨batch, hbatch, h⟩ := bind_ok_iff.mp h
  obtain ⟨states, hstates, h⟩ := bind_ok_iff.mp h
  obtain ⟨reaped, hreaped, h⟩ := bind_ok_iff.mp h
  obtain ⟨bloks, hbloks, h⟩ := bind_ok_iff.mp h
  obtain ⟨agent, hagent, hbegun⟩ := bind_ok_iff.mp hbegun
  obtain ⟨locked, hlocked, hbegun⟩ := bind_ok_iff.mp hbegun
  rw [orRaise_ok_iff] at hagent
  have hb := pure_ok_iff.mp hbegun
  subst hb
  split at h
  · have hr := pure_ok_iff.mp h
    subst hr
    exact ⟨_, agent, locked, batch, states, reaped, {
      upserts := rfl
      found := hagent
      locks := hlocked
      registers := hbatch
      stated := hstates
      reaps := hreaped
      bloks := hbloks
      agentId := rfl }⟩
  · cases h

/-! ## What each part changes -/

theorem upsertAgent_frame {name : String} {hash : Option String} :
    (upsertAgent db requester name hash).1 =
      { db with agents := (upsertAgent db requester name hash).1.agents } := by
  unfold upsertAgent
  dsimp only
  split <;> rfl

theorem registerLocks_frame {inputs : List LockInput} {db' : Database}
    (h : inputs.foldlM (registerLock agentId) db = .ok db') :
    db' = { db with locks := db'.locks } := by
  obtain ⟨_, _, _, _, rfl⟩ := registerLocks_iff.mp h
  rfl

theorem registerStates_frame {inputs : List StateInput} {r : Database × List StateId}
    (h : registerStates H agentId agent db inputs = .ok r) :
    r.1 = { db with stateDefinitions := r.1.stateDefinitions, states := r.1.states } := by
  obtain ⟨_, _, _, _, _, _, _, hr⟩ := registerStates_iff.mp h
  rw [hr]

/-- What was reaped is not there to be reaped again. -/
theorem reapStates_again {kept : List StateId} {db₂ : Database}
    (h : db₂.states = (reapStates db agentId kept).states) :
    (reapStates db₂ agentId kept).states = db₂.states := by
  refine Table.erase_eq_self fun k row hrow => ?_
  have hkeep := hrow
  rw [h] at hkeep
  obtain ⟨hget, hnot⟩ := Table.get_erase_eq_some_iff.mp hkeep
  show (db₂.states.get k).any _ = false
  rw [hrow, ← hget]
  exact hnot

section

variable (h : Equipped H db requester input uuid r upserted agent locked batch states reaped)
include h

theorem Equipped.app : agent.app = requester.app := by
  have hfound := h.found
  rw [← h.upserts] at hfound
  exact (upsertAgent_agent hfound).2

theorem Equipped.reaped_same :
    SameEquipment (reapStates states.1 upserted.2 states.2) reaped := sameEquipment_reap h.reaps

theorem Equipped.unique (hunique : Table.UniqueOn mappingKey db.blokAgentMappings) :
    Table.UniqueOn mappingKey reaped.blokAgentMappings := by
  have hupserted : upserted.1.blokAgentMappings = db.blokAgentMappings := by
    rw [← h.upserts, upsertAgent_frame]
  have hlocked : locked.blokAgentMappings = upserted.1.blokAgentMappings := by
    rw [registerLocks_frame h.locks]
  have hstates : states.1.blokAgentMappings = batch.db.blokAgentMappings := by
    rw [registerStates_frame h.stated]
  rw [h.reaped_same.mappings]
  show Table.UniqueOn mappingKey states.1.blokAgentMappings
  rwa [hstates, (sameEquipment_batch h.registers).mappings, hlocked, hupserted]

/-- The agent of the call is the one of the next call. -/
theorem Equipped.agentOf : r.1.agentOf? requester.toAgentIdentity = some upserted.2 := by
  have hlocked : locked.agents = upserted.1.agents := by
    rw [registerLocks_frame h.locks]
  have hstates : states.1.agents = batch.db.agents := by
    rw [registerStates_frame h.stated]
  have hagents : r.1.agents = upserted.1.agents := by
    rw [(registerBloks_onlyBloks h.bloks).agents, h.reaped_same.agents]
    show states.1.agents = _
    rw [hstates, (sameEquipment_batch h.registers).agents, hlocked]
  unfold Database.agentOf?
  rw [hagents, ← h.upserts]
  exact agentOf?_upsertAgent

/-- The locks that the call leaves, but for who holds them. -/
theorem Equipped.sameLocks : SameLocks locked.locks r.1.locks := by
  have hstates : states.1.locks = batch.db.locks := by
    rw [registerStates_frame h.stated]
  intro k
  rw [(registerBloks_onlyBloks h.bloks).locks, h.reaped_same.locks k]
  show (states.1.locks.get k).map unheld = _
  rw [hstates]
  exact (sameEquipment_batch h.registers).locks k

end

/-- The same declaration again finds its agent, and all its locks, states and bloks as it left
them; only who holds a lock may have changed. -/
theorem implementAgent_again {uuid' : String} {r₁ r₂ : Database × AgentId}
    (hunique : Table.UniqueOn mappingKey db.blokAgentMappings)
    (h₁ : implementAgent H db requester input uuid = .ok r₁)
    (h₂ : implementAgent H r₁.1 requester input uuid' = .ok r₂) :
    r₂.2 = r₁.2 ∧ SameEquipment { r₁.1 with agents := r₂.1.agents } r₂.1 := by
  obtain ⟨upserted, agent, locked, batch, states, reaped, hfirst⟩ := equipped_of_implementAgent h₁
  obtain ⟨upserted', agent', locked', batch', states', reaped', hsecond⟩ :=
    equipped_of_implementAgent h₂
  -- the agent and its locks
  have hself : upserted'.2 = upserted.2 := by
    rw [← hsecond.upserts]
    exact upsertAgent_self hfirst.agentOf
  have happ : agent'.app = agent.app := by
    rw [hfirst.app, hsecond.app]
  have hupserted : upserted'.1 = { r₁.1 with agents := upserted'.1.agents } := by
    rw [← hsecond.upserts]
    exact upsertAgent_frame
  have hlocked : locked' = upserted'.1 := by
    have hrun := hsecond.locks
    rw [hself, registerLocks_again hfirst.locks (hupserted ▸ hfirst.sameLocks)] at hrun
    exact (Except.ok.inj hrun).symm
  have hbatch := sameEquipment_batch hsecond.registers
  rw [hlocked, hupserted] at hbatch
  -- the states
  have hbloks := registerBloks_onlyBloks hfirst.bloks
  have hleft : batch'.db.states = (reapStates states.1 upserted.2 states.2).states :=
    (hbatch.states.trans hbloks.states).trans hfirst.reaped_same.states
  have hdefined : batch'.db.stateDefinitions = states.1.stateDefinitions :=
    (hbatch.definitions.trans hbloks.definitions).trans hfirst.reaped_same.definitions
  have hstates : states' = (batch'.db, states.2) := by
    have hrun := hsecond.stated
    rw [hself, registerStates_again hfirst.stated happ hdefined (fun k row hrow => ?_)
      fun k hk row hrow => ?_] at hrun
    · exact (Except.ok.inj hrun).symm
    · rw [hleft] at hrow
      exact (Table.get_erase_eq_some_iff.mp hrow).1
    · rw [hleft]
      refine Table.get_erase_eq_some_iff.mpr ⟨hrow, ?_⟩
      show (states.1.states.get k).any _ = false
      rw [hrow]
      simp [hk]
  have hreaped : SameEquipment batch'.db reaped' := by
    refine SameEquipment.trans ?_ hsecond.reaped_same
    rw [hself, hstates]
    exact { SameEquipment.refl with states := reapStates_again hleft }
  -- the bloks
  have hsame := hbatch.trans hreaped
  have hlast : r₂.1 = reaped' := by
    have hrun := hsecond.bloks
    rw [hself, registerBloks_again hfirst.bloks (hfirst.unique hunique) hsame.catalogs hsame.bloks
      hsame.materialized hsame.dependencies hsame.mappings] at hrun
    exact (Except.ok.inj hrun).symm
  refine ⟨?_, ?_⟩
  · rw [hsecond.agentId, hself, hfirst.agentId]
  · rw [hlast, hsame.agents]
    exact hsame

/-- An app with one of each. -/
def cabinet : AgentInput where
  implementations := [declare "acquire" "acquire"]
  states := [{ interface := "position", name := "Position", ports := [] }]
  locks := [{ key := "stage" }]
  bloks := [{ key := "viewer", dependencies := [{ key := "camera" }], demoState := some [] }]

theorem cabinet_again : ∃ r₁ r₂, implementAgent naming {} (bench 1) cabinet "a" = .ok r₁ ∧
    implementAgent naming r₁.1 (bench 1) cabinet "b" = .ok r₂ ∧ r₂.2 = r₁.2 ∧
    SameEquipment { r₁.1 with agents := r₂.1.agents } r₂.1 := by
  have hboth : ((implementAgent naming {} (bench 1) cabinet "a").bind fun r =>
      implementAgent naming r.1 (bench 1) cabinet "b").isOk = true := by decide +kernel
  cases h₁ : implementAgent naming {} (bench 1) cabinet "a" with
  | error e =>
    rw [h₁] at hboth
    cases hboth
  | ok r₁ =>
    rw [h₁] at hboth
    change (implementAgent naming r₁.1 (bench 1) cabinet "b").isOk = true at hboth
    cases h₂ : implementAgent naming r₁.1 (bench 1) cabinet "b" with
    | error e =>
      rw [h₂] at hboth
      cases hboth
    | ok r₂ => exact ⟨r₁, r₂, rfl, h₂, implementAgent_again Table.UniqueOn.empty h₁ h₂⟩

end Registration
end Rekuest
