import Rekuest.Registry.Turns

/-!
# Rekuest.Registry.Runs

Calls and histories of them, as registrations one after the other.

* `SameRegistry`: what the agent row, the locks, the states and the bloks have nothing to do with.
* `implementAgent_ok`, `createImplementationFor_ok`: a call as its batch and its reaping.
-/

namespace Rekuest
namespace Registration

open Fallible
open Interleave (Table)

/-- The actions and the implementations are those of before. -/
structure SameRegistry (db db' : Database) : Prop where
  actions : db'.actions = db.actions
  view : ∀ k, view db' k = view db k
  collections : db'.collections = db.collections
  implementations : db'.implementations = db.implementations

variable {H : Hashing} {db db' : Database} {agentId : AgentId} {agent : Agent}
  {requester : Requester}

theorem SameRegistry.refl : SameRegistry db db := ⟨rfl, fun _ => rfl, rfl, rfl⟩

theorem SameRegistry.trans {db'' : Database} (h : SameRegistry db db')
    (h' : SameRegistry db' db'') : SameRegistry db db'' where
  actions := h'.actions.trans h.actions
  view k := (h'.view k).trans (h.view k)
  collections := h'.collections.trans h.collections
  implementations := h'.implementations.trans h.implementations

/-- What each turn of a loop has nothing to do with, the loop has nothing to do with. -/
theorem SameRegistry.foldlM {α : Type} {f : Database → α → Except Error Database} {xs : List α}
    (hf : ∀ db x db', f db x = .ok db' → SameRegistry db db') (h : xs.foldlM f db = .ok db') :
    SameRegistry db db' := by
  induction xs generalizing db with
  | nil =>
    rw [foldlM_nil_iff] at h
    rw [h]
    exact .refl
  | cons x xs ih =>
    obtain ⟨c, hc, hrest⟩ := foldlM_cons_iff.mp h
    exact (hf db x c hc).trans (ih hrest)

/-! ## The parts of a call -/

theorem upsertAgent_registry {name : String} {hash : Option String} :
    SameRegistry db (upsertAgent db requester name hash).1 := by
  unfold upsertAgent
  dsimp only
  split <;> exact ⟨rfl, fun _ => rfl, rfl, rfl⟩

/-- The row of the agent carries its identity, and what its client is a release of. -/
theorem upsertAgent_agent {name : String} {hash : Option String}
    (h : (upsertAgent db requester name hash).1.agents.get (upsertAgent db requester name hash).2 =
      some agent) : agent.organization = requester.organization ∧ agent.app = requester.app := by
  unfold upsertAgent at h
  dsimp only at h
  split at h
  · rename_i id hid
    obtain ⟨row, hrow, hkey⟩ := Option.map_eq_some_iff.mp hid
    obtain ⟨hget, hmeets⟩ := Table.mem_select.mp (List.mem_of_mem_head? hrow)
    simp only [Bool.and_eq_true, decide_eq_true_eq] at hmeets
    rw [Table.get_modify_self, ← hkey, hget] at h
    rw [← Option.some.inj h]
    exact ⟨hmeets.2, rfl⟩
  · rw [Table.get_insert_next] at h
    rw [← Option.some.inj h]
    exact ⟨rfl, rfl⟩

theorem upsertAgent_self {name : String} {hash : Option String} {id : AgentId}
    (h : db.agentOf? requester.toAgentIdentity = some id) :
    (upsertAgent db requester name hash).2 = id := by
  unfold upsertAgent
  rw [h]

theorem registerLock_registry {input : LockInput} (h : registerLock agentId db input = .ok db') :
    SameRegistry db db' := by
  obtain ⟨stored, _, h⟩ := bind_ok_iff.mp h
  rw [← pure_ok_iff.mp h]
  exact ⟨rfl, fun _ => rfl, rfl, rfl⟩

theorem registerStates_registry {inputs : List StateInput} {r : Database × List StateId}
    (h : registerStates H agentId agent db inputs = .ok r) : SameRegistry db r.1 := by
  induction inputs generalizing db r with
  | nil =>
    cases h
    exact .refl
  | cons input inputs ih =>
    obtain ⟨stored, hstored, h⟩ := bind_ok_iff.mp h
    obtain ⟨rest, hrest, h⟩ := bind_ok_iff.mp h
    obtain ⟨definition, _, hstored⟩ := bind_ok_iff.mp hstored
    obtain ⟨state, _, hstored⟩ := bind_ok_iff.mp hstored
    have hsame : SameRegistry db stored.1 := by
      rw [← pure_ok_iff.mp hstored]
      exact ⟨rfl, fun _ => rfl, rfl, rfl⟩
    rw [← pure_ok_iff.mp h]
    have hih := ih hrest
    exact hsame.trans hih

theorem registerBlokDependency_registry {blok materializedBlok : Nat}
    {dependency : AgentDependency}
    (h : registerBlokDependency agentId blok materializedBlok db dependency = .ok db') :
    SameRegistry db db' := by
  obtain ⟨dep, _, h⟩ := bind_ok_iff.mp h
  obtain ⟨mapping, _, h⟩ := bind_ok_iff.mp h
  split at h
  · rw [← pure_ok_iff.mp h]
    exact ⟨rfl, fun _ => rfl, rfl, rfl⟩
  · cases h

theorem registerBlok_registry {input : BlokInput}
    (h : registerBlok requester agentId db input = .ok db') : SameRegistry db db' := by
  obtain ⟨catalog, _, h⟩ := bind_ok_iff.mp h
  obtain ⟨demoState, _, h⟩ := bind_ok_iff.mp h
  obtain ⟨blok, _, h⟩ := bind_ok_iff.mp h
  obtain ⟨materialized, _, h⟩ := bind_ok_iff.mp h
  have hrest := SameRegistry.foldlM (fun _ _ _ h => registerBlokDependency_registry h) h
  exact ⟨hrest.actions, hrest.view, hrest.collections, hrest.implementations⟩

theorem reapStates_registry {kept : List StateId} : SameRegistry db (reapStates db agentId kept) :=
  ⟨rfl, fun _ => rfl, rfl, rfl⟩

/-- What the reaping leaves: the actions, and of the agent's implementations those kept. -/
structure Reaped (db : Database) (agentId : AgentId) (kept : List ImplementationId)
    (db' : Database) : Prop where
  actions : db'.actions = db.actions
  view : ∀ k, view db' k = view db k
  collections : db'.collections = db.collections
  next : db'.implementations.next = db.implementations.next
  implementations : ∀ i row, db'.implementations.get i = some row →
    ∃ before, db.implementations.get i = some before ∧ Alike before row ∧
      (before.agent = agentId → i ∈ kept)
  stay : ∀ i before, db.implementations.get i = some before →
    (before.agent = agentId → i ∈ kept) → ∃ row, db'.implementations.get i = some row ∧
      Alike before row

theorem reapImplementations_ok {kept : List ImplementationId}
    (h : reapImplementations db agentId kept = .ok db') : Reaped db agentId kept db' := by
  obtain ⟨hdb, _⟩ := Database.delete_ok h
  have hdoomed : ∀ i, (db.doomed (fun _ => false) fun i => (db.implementations.get i).any
      fun row => row.agent = agentId && !kept.contains i).implementation i =
        (db.implementations.get i).any fun row => row.agent = agentId && !kept.contains i := by
    intro i
    simp [Database.doomed]
  have hactions : db'.actions = db.actions := by
    rw [hdb]
    exact Table.erase_eq_self fun _ _ _ => rfl
  refine {
    actions := hactions
    view := fun k => ?_
    collections := by rw [hdb]; rfl
    next := by rw [hdb]; rfl
    implementations := fun i row hrow => ?_
    stay := fun i before hbefore hkept => ?_ }
  · rw [view, hactions, hdb]
    simp [Registration.view, Database.remove, Database.doomed]
  · rw [hdb] at hrow
    obtain ⟨before, hbefore, hlinks⟩ := Option.map_eq_some_iff.mp hrow
    obtain ⟨hget, hnot⟩ := Table.get_erase_eq_some_iff.mp hbefore
    rw [hdoomed, hget] at hnot
    refine ⟨before, hget, ?_, fun hagent => ?_⟩
    · rw [← hlinks]
      rfl
    · simpa [hagent] using hnot
  · rw [hdb]
    refine ⟨_, Option.map_eq_some_iff.mpr ⟨before, Table.get_erase_eq_some_iff.mpr ⟨hbefore, ?_⟩,
      rfl⟩, rfl⟩
    rw [hdoomed, hbefore]
    by_cases hagent : before.agent = agentId
    · simp [hkept hagent]
    · simp [hagent]

/-! ## A call -/

/-- The agent of a call, before anything of it is registered. -/
structure Begun (db : Database) (requester : Requester) (begun : Database × AgentId × Agent) :
    Prop where
  identity : begun.2.2.organization = requester.organization ∧ begun.2.2.app = requester.app
  self : ∀ id, db.agentOf? requester.toAgentIdentity = some id → begun.2.1 = id
  registry : SameRegistry db begun.1

theorem beginAgent_ok {input : AgentInput} {uuid : String} {begun : Database × AgentId × Agent}
    (h : beginAgent db requester input uuid = .ok begun) : Begun db requester begun := by
  obtain ⟨agent, hagent, h⟩ := bind_ok_iff.mp h
  obtain ⟨locked, hlocked, h⟩ := bind_ok_iff.mp h
  rw [← pure_ok_iff.mp h]
  rw [orRaise_ok_iff] at hagent
  have hlocks := SameRegistry.foldlM (fun _ _ _ h => registerLock_registry h) hlocked
  exact ⟨upsertAgent_agent hagent, fun id hid => upsertAgent_self hid,
    upsertAgent_registry.trans hlocks⟩

/-- A call as its beginning, its batch, and what is reaped. -/
structure Called (H : Hashing) (db : Database) (requester : Requester) (input : AgentInput)
    (uuid : String) (r : Database × AgentId) (begun : Database × AgentId × Agent) (batch : Batch)
    (db₁ db₂ : Database) : Prop where
  begins : beginAgent db requester input uuid = .ok begun
  agentId : r.2 = begun.2.1
  registered : registerBatch H begun.1 begun.2.1 begun.2.2 input.implementations = .ok batch
  states : SameRegistry batch.db db₁
  reaped : Reaped db₁ begun.2.1 batch.created db₂
  bloks : SameRegistry db₂ r.1
  commits : Database.commits r.1 begun.2.1 = true

theorem implementAgent_ok {input : AgentInput} {uuid : String} {r : Database × AgentId}
    (h : implementAgent H db requester input uuid = .ok r) :
    ∃ begun batch db₁ db₂, Called H db requester input uuid r begun batch db₁ db₂ := by
  obtain ⟨begun, hbegun, h⟩ := bind_ok_iff.mp h
  obtain ⟨batch, hbatch, h⟩ := bind_ok_iff.mp h
  obtain ⟨states, hstates, h⟩ := bind_ok_iff.mp h
  obtain ⟨reaped, hreaped, h⟩ := bind_ok_iff.mp h
  obtain ⟨bloks, hbloks, h⟩ := bind_ok_iff.mp h
  split at h
  · rename_i hcommits
    have hr := pure_ok_iff.mp h
    subst hr
    exact ⟨begun, batch, _, reaped, {
      begins := hbegun
      agentId := rfl
      registered := hbatch
      states := (registerStates_registry hstates).trans reapStates_registry
      reaped := reapImplementations_ok hreaped
      bloks := SameRegistry.foldlM (fun _ _ _ h => registerBlok_registry h) hbloks
      commits := hcommits }⟩
  · cases h

theorem createImplementationFor_ok {input : ImplementationInput} {r : Registered}
    (h : createImplementationFor H db requester input = .ok r) :
    ∃ agent agentId db₀, agent.organization = requester.organization ∧
      agent.app = requester.app ∧
      (∀ id, db.agentOf? requester.toAgentIdentity = some id → agentId = id) ∧
      SameRegistry db db₀ ∧ createImplementation H db₀ agentId agent input = .ok r := by
  obtain ⟨agent, hagent, h⟩ := bind_ok_iff.mp h
  rw [orRaise_ok_iff] at hagent
  obtain ⟨horganization, happ⟩ := upsertAgent_agent hagent
  exact ⟨agent, _, _, horganization, happ, fun id hid => upsertAgent_self hid,
    upsertAgent_registry, h⟩

end Registration
end Rekuest
