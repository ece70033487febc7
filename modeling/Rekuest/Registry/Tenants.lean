import Rekuest.Registry.Again
import Rekuest.Registry.Qualifiers

/-!
# Rekuest.Registry.Tenants

Registrations of other organizations, seen from one organization.

* `Segregated`: implementations have actions of their agent's organization, and tests test actions
  of their own.
* `Untouched`: what an organization has of its own is as it was.
* `untouched_of_turned`, `midway_of_turned`: one registration. In the middle of a batch an
  implementation of the agent may have lost its action, which `Midway` allows.
* `untouched_of_runs`: any registrations of the others.
-/

namespace Rekuest
namespace Registration

open Fallible
open Interleave (Table)
open Interleave.Table (Upserts)

/-- The agent is one of the organization. -/
def Owns (db : Database) (o : Organization) (a : AgentId) : Prop :=
  ∃ row, db.agents.get a = some row ∧ row.organization = o

/-- The links of tests stay within an organization. -/
def TestsWithin (db : Database) : Prop :=
  ∀ k row j, db.actions.get k = some row → j ∈ db.isTestFor k →
    ∃ target, db.actions.get j = some target ∧ target.organization = row.organization

/-- The links of implementations stay within an organization, and those of tests. -/
structure Segregated (db : Database) : Prop where
  implementations : ∀ i row, db.implementations.get i = some row →
    ∃ action, db.actions.get row.action = some action ∧ Owns db action.organization row.agent
  tests : TestsWithin db

/-- The same in the middle of a batch of the agent, where its own implementations may have lost
their actions. -/
structure Midway (p : Organization) (agentId : AgentId) (db : Database) : Prop where
  agent : Owns db p agentId
  own : ∀ i row action, db.implementations.get i = some row → row.agent = agentId →
    db.actions.get row.action = some action → action.organization = p
  others : ∀ i row, db.implementations.get i = some row → row.agent ≠ agentId →
    ∃ action, db.actions.get row.action = some action ∧ Owns db action.organization row.agent
  tests : TestsWithin db

/-- What the organization has of its own is as it was: its agents, its actions with all that is
derived from them, its implementations but for what they wrap, its states, and its locks but for
who holds them. -/
structure Untouched (o : Organization) (db db' : Database) : Prop where
  agents : ∀ a row, row.organization = o → (db'.agents.get a = some row ↔ db.agents.get a = some row)
  actions : ∀ k row, row.organization = o →
    (db'.actions.get k = some row ↔ db.actions.get k = some row)
  derived : ∀ k row, row.organization = o → db.actions.get k = some row → view db' k = view db k
  implementations : ∀ i row, Owns db o row.agent → db.implementations.get i = some row →
    ∃ after, db'.implementations.get i = some after ∧ Alike row after
  noOthers : ∀ i row, Owns db o row.agent → db'.implementations.get i = some row →
    ∃ before, db.implementations.get i = some before ∧ Alike before row
  states : ∀ k row, Owns db o row.agent →
    (db'.states.get k = some row ↔ db.states.get k = some row)
  locks : ∀ k row, Owns db o row.agent →
    ((db'.locks.get k).map unheld = some row ↔ (db.locks.get k).map unheld = some row)

variable {H : Hashing} {db db' db₁ : Database} {agentId : AgentId} {agent : Agent}
  {requester : Requester} {o p : Organization}

theorem Untouched.refl : Untouched o db db where
  agents _ _ _ := Iff.rfl
  actions _ _ _ := Iff.rfl
  derived _ _ _ _ := rfl
  implementations _ row _ hrow := ⟨row, hrow, rfl⟩
  noOthers _ row _ hrow := ⟨row, hrow, rfl⟩
  states _ _ _ := Iff.rfl
  locks _ _ _ := Iff.rfl

theorem Untouched.owns (h : Untouched o db db') {a : AgentId} : Owns db' o a ↔ Owns db o a := by
  constructor
  · intro howns
    obtain ⟨row, hrow, horganization⟩ := howns
    exact ⟨row, (h.agents a row horganization).mp hrow, horganization⟩
  · intro howns
    obtain ⟨row, hrow, horganization⟩ := howns
    exact ⟨row, (h.agents a row horganization).mpr hrow, horganization⟩

theorem Untouched.trans {db'' : Database} (h : Untouched o db db') (h' : Untouched o db' db'') :
    Untouched o db db'' where
  agents a row ho := (h'.agents a row ho).trans (h.agents a row ho)
  actions k row ho := (h'.actions k row ho).trans (h.actions k row ho)
  derived k row ho hrow :=
    (h'.derived k row ho ((h.actions k row ho).mpr hrow)).trans (h.derived k row ho hrow)
  implementations i row howns hrow := by
    obtain ⟨mid, hmid, halike⟩ := h.implementations i row howns hrow
    obtain ⟨after, hafter, halike'⟩ :=
      h'.implementations i mid (h.owns.mpr (halike.agent ▸ howns)) hmid
    exact ⟨after, hafter, halike.trans halike'⟩
  noOthers i row howns hrow := by
    obtain ⟨mid, hmid, halike⟩ := h'.noOthers i row (h.owns.mpr howns) hrow
    obtain ⟨before, hbefore, halike'⟩ := h.noOthers i mid (halike.agent ▸ howns) hmid
    exact ⟨before, hbefore, halike'.trans halike⟩
  states k row howns := (h'.states k row (h.owns.mpr howns)).trans (h.states k row howns)
  locks k row howns := (h'.locks k row (h.owns.mpr howns)).trans (h.locks k row howns)

/-- An agent has one organization. -/
theorem Owns.unique {a : AgentId} (h : Owns db o a) (h' : Owns db p a) : o = p := by
  obtain ⟨row, hrow, rfl⟩ := h
  obtain ⟨row', hrow', rfl⟩ := h'
  rw [hrow] at hrow'
  rw [Option.some.inj hrow']

/-! ## One registration -/

section

variable {input : ImplementationInput} {found : Option (Instance Action)}
  {current : Option ImplementationRef} {k : ActionId} {r : Registered}

/-- The row that the action had, if it had one, has the declared coordinate. -/
theorem Turned.before (h : Turned H db agentId agent input found current r k db₁)
    (hlook : Looked db agentId agent input found current) {row : Action}
    (hrow : db.actions.get k = some row) : row.organization = agent.organization := by
  have hfound : ∃ a, found = some a ∧ a.pk = some k := by
    by_contra hnone
    have hnew := h.new fun a ha => by
      by_contra hpk
      obtain ⟨j, hj⟩ := Option.ne_none_iff_exists'.mp hpk
      exact hnone ⟨a, ha, by rw [h.same a j ha hj, hj]⟩
    rw [hnew, Table.get_next] at hrow
    cases hrow
  obtain ⟨a, ha, hpk⟩ := hfound
  have hcoordinate := hlook.coordinate a ha
  rw [(hlook.fits a ha k hpk).2 row hrow]
  exact (Prod.mk.inj hcoordinate).1

/-- The action that is deleted was one of the agent's organization. -/
theorem Turned.dropped_organization (h : Turned H db agentId agent input found current r k db₁)
    (hlook : Looked db agentId agent input found current) (hdb : Midway p agentId db) {j : ActionId}
    {row : Action} (hj : r.dropped = some j) (hrow : db.actions.get j = some row) :
    row.organization = p := by
  obtain ⟨_, _, _, ref, href, hrefa⟩ := h.gone j hj
  obtain ⟨hagent, _, own, hown, halike⟩ := hlook.current ref href
  refine hdb.own ref.1 own row hown ?_ ?_
  · rw [halike.agent, hagent]
  · rw [halike.action, hrefa]
    exact hrow

/-- What is stored of the actions of another organization. -/
theorem Turned.foreign (h : Turned H db agentId agent input found current r k db₁)
    (hlook : Looked db agentId agent input found current)
    (hdb : Midway agent.organization agentId db) {j : ActionId} {row : Action}
    (hrow : db.actions.get j = some row) (hforeign : row.organization ≠ agent.organization) :
    view r.db j = view db j := by
  have hk : j ≠ k := by
    rintro rfl
    exact hforeign (h.before hlook hrow)
  have hdrop : r.dropped ≠ some j := fun hdrop =>
    hforeign (h.dropped_organization hlook hdb hdrop hrow)
  have hlinks : (view db j).isTestFor.filter (fun i => r.dropped ≠ some i) =
      (view db j).isTestFor := by
    refine Finset.filter_true_of_mem fun i hi hgone => ?_
    obtain ⟨target, htarget, horganization⟩ := hdb.tests j row i hrow hi
    exact hforeign (horganization.symm.trans (h.dropped_organization hlook hdb hgone htarget))
  rw [h.others j hk hdrop, ActionView.unlink, hlinks]

/-- The row that the action has now. -/
theorem Turned.after (h : Turned H db agentId agent input found current r k db₁) {row : Action}
    (hrow : r.db.actions.get k = some row) : row.organization = agent.organization := by
  rw [(h.own_row hrow).1]
  exact (Prod.mk.inj h.coordinate).1

/-- An action that is not deleted stays one of its organization. -/
theorem Turned.row_stays (h : Turned H db agentId agent input found current r k db₁)
    (hlook : Looked db agentId agent input found current) {j : ActionId} {row : Action}
    (hrow : db.actions.get j = some row) (hdrop : r.dropped ≠ some j) :
    ∃ after, r.db.actions.get j = some after ∧ after.organization = row.organization := by
  by_cases hk : j = k
  · subst hk
    obtain ⟨after, hafter⟩ : ∃ after, r.db.actions.get j = some after := by
      have hview : r.db.actions.get j = db₁.actions.get j := (congrArg ActionView.row h.own :)
      rw [hview]
      cases h.acted with
      | rewritten h => exact ⟨_, h.settled.get⟩
      | kept before h => exact ⟨_, h.settled.get⟩
      | stale hstale =>
        have hgone := hstale.gone j h.pk
        rw [hrow] at hgone
        cases hgone
    exact ⟨after, hafter, (h.after hafter).trans (h.before hlook hrow).symm⟩
  · have hview := h.others j hk hdrop
    exact ⟨row, (congrArg ActionView.row hview :).trans hrow, rfl⟩

/-- The links of tests stay within an organization. -/
theorem Turned.tests (h : Turned H db agentId agent input found current r k db₁)
    (hlook : Looked db agentId agent input found current) (hdb : TestsWithin db) :
    TestsWithin r.db := by
  intro j row i hrow hi
  by_cases hj : j = k
  · subst hj
    obtain ⟨hown, _, hacted⟩ := h.own_row hrow
    have horganization := h.after hrow
    have hlinks : r.db.isTestFor j = (db₁.isTestFor j).filter fun i => r.dropped ≠ some i :=
      (congrArg ActionView.isTestFor h.own :)
    rw [hlinks, Finset.mem_filter] at hi
    rw [horganization]
    rcases hacted with hwritten | ⟨before, hkept⟩
    · have hresolved : db₁.isTestFor j = resolveTestTargets db₁ agent input.definition.isTestFor :=
        hwritten.rebuilt.isTestFor
      rw [hresolved, resolveTestTargets, mem_matchingActions] at hi
      obtain ⟨⟨target, htarget, hof, _⟩, hdrop⟩ := hi
      by_cases hij : i = j
      · rw [hij]
        exact ⟨row, hrow, horganization⟩
      · have hrows : db₁.actions.get i = db.actions.get i :=
          (congrArg ActionView.row (hwritten.settled.others i hij) :)
        rw [hrows] at htarget
        obtain ⟨after, hafter, hsame⟩ := h.row_stays hlook htarget hdrop
        exact ⟨after, hafter, hsame.trans hof⟩
    · have hframe : db₁.isTestFor = db.isTestFor := (congrArg Database.isTestFor hkept.frame :)
      rw [hframe] at hi
      obtain ⟨target, htarget, hof⟩ := hdb j before i hkept.get hi.1
      obtain ⟨after, hafter, hsame⟩ := h.row_stays hlook htarget hi.2
      exact ⟨after, hafter, (hsame.trans hof).trans (h.before hlook hkept.get)⟩
  · obtain ⟨hbefore, hview⟩ := h.other_row hj hrow
    have hlinks : r.db.isTestFor j = (db.isTestFor j).filter fun i => r.dropped ≠ some i :=
      (congrArg ActionView.isTestFor hview :)
    rw [hlinks, Finset.mem_filter] at hi
    obtain ⟨target, htarget, hof⟩ := hdb j row i hbefore hi.1
    obtain ⟨after, hafter, hsame⟩ := h.row_stays hlook htarget hi.2
    exact ⟨after, hafter, hsame.trans hof⟩

theorem midway_of_turned (hr : register H db agentId agent input found current = .ok r)
    (hlook : Looked db agentId agent input found current)
    (h : Turned H db agentId agent input found current r k db₁)
    (hdb : Midway agent.organization agentId db) : Midway agent.organization agentId r.db := by
  have hagents := (sameEquipment_register hr hlook).agents
  have hown : ∀ j row, r.db.actions.get j = some row → j = k ∨ db.actions.get j = some row := by
    intro j row hrow
    by_cases hj : j = k
    · exact .inl hj
    · exact .inr (h.other_row hj hrow).1
  refine {
    agent := by rw [Owns, hagents]; exact hdb.agent
    own := fun i row action hrow hagent haction => ?_
    others := fun i row hrow hagent => ?_
    tests := h.tests hlook hdb.tests }
  · rcases hown _ action haction with hk | hbefore
    · rw [hk] at haction
      exact h.after haction
    · by_cases hi : i = r.implementation.1
      · rw [hi, h.installed] at hrow
        rw [← Option.some.inj hrow, h.row.2.2.1] at haction
        exact h.after haction
      · obtain ⟨before, hget, halike⟩ := h.implementations i row hi hrow
        rw [halike.agent] at hagent
        rw [halike.action] at hbefore
        exact hdb.own i before action hget hagent hbefore
  · obtain ⟨hi, before, hget, halike⟩ := h.other hrow hagent
    rw [halike.agent] at hagent
    obtain ⟨action, haction, howner⟩ := hdb.others i before hget hagent
    obtain ⟨after, hafter, hcoordinate⟩ := h.action_stays hlook hi hget haction
    have horganization : after.organization = action.organization := (Prod.mk.inj hcoordinate).1
    rw [halike.action, halike.agent]
    refine ⟨after, hafter, ?_⟩
    rw [Owns, hagents, horganization]
    exact howner

theorem untouched_of_turned (hr : register H db agentId agent input found current = .ok r)
    (hlook : Looked db agentId agent input found current)
    (h : Turned H db agentId agent input found current r k db₁)
    (hdb : Midway agent.organization agentId db) (hforeign : o ≠ agent.organization) :
    Untouched o db r.db := by
  have hsame := sameEquipment_register hr hlook
  have hother : ∀ a, Owns db o a → a ≠ agentId := by
    rintro a howns rfl
    exact hforeign (howns.unique hdb.agent)
  refine {
    agents := fun a row _ => by rw [hsame.agents]
    actions := fun j row ho => ⟨fun hrow => ?_, fun hrow => ?_⟩
    derived := fun j row ho hrow => h.foreign hlook hdb hrow (ho ▸ hforeign)
    implementations := fun i row howns hrow => ?_
    noOthers := fun i row howns hrow => (h.other hrow (hother _ howns)).2
    states := fun j row _ => by rw [hsame.states]
    locks := fun j row _ => by rw [hsame.locks j] }
  · by_cases hj : j = k
    · rw [hj] at hrow
      exact absurd (ho.symm.trans (h.after hrow)) hforeign
    · exact (h.other_row hj hrow).1
  · have hview := h.foreign hlook hdb hrow (ho ▸ hforeign)
    exact (congrArg ActionView.row hview :).trans hrow
  · refine h.stay i row (fun hi => ?_) hrow
    rw [h.id] at hi
    cases hc : current with
    | none =>
      rw [hc] at hi
      simp only [Option.map_none, Option.getD_none] at hi
      exact absurd hi (Nat.ne_of_lt (Table.lt_next hrow))
    | some ref =>
      rw [hc] at hi
      obtain ⟨hagent, _, own, hown, halike⟩ := hlook.current ref hc
      simp only [Option.map_some, Option.getD_some] at hi
      rw [hi, hown] at hrow
      refine hother _ howns ?_
      rw [← Option.some.inj hrow, halike.agent, hagent]

end

/-! ## The agent of a call -/

section

variable {name : String} {hash : Option String} {a : AgentId}

theorem agentOf?_organization {id : AgentId}
    (h : db.agentOf? requester.toAgentIdentity = some id) :
    Owns db requester.organization id := by
  obtain ⟨row, hrow, rfl⟩ := Option.map_eq_some_iff.mp h
  obtain ⟨hget, hmeets⟩ := Table.mem_select.mp (List.mem_of_mem_head? hrow)
  simp only [Bool.and_eq_true, decide_eq_true_eq] at hmeets
  exact ⟨row.2, hget, hmeets.2⟩

/-- No agent changes its organization. -/
theorem Owns.upsertAgent (h : Owns db o a) : Owns (upsertAgent db requester name hash).1 o a := by
  obtain ⟨row, hrow, horganization⟩ := h
  unfold Registration.upsertAgent
  dsimp only
  split
  · rw [Owns, Table.get_modify]
    split
    · rw [hrow]
      exact ⟨_, rfl, horganization⟩
    · exact ⟨row, hrow, horganization⟩
  · exact ⟨row, Table.get_insert_of_get hrow, horganization⟩

theorem upsertAgent_owns : Owns (upsertAgent db requester name hash).1 requester.organization
    (upsertAgent db requester name hash).2 := by
  unfold upsertAgent
  dsimp only
  split
  · rename_i id hid
    obtain ⟨row, hrow, horganization⟩ := agentOf?_organization hid
    rw [Owns, Table.get_modify_self, hrow]
    exact ⟨_, rfl, horganization⟩
  · exact ⟨_, Table.get_insert_next, rfl⟩

/-- The agents of other organizations stay as they are. -/
theorem upsertAgent_agents {row : Agent} (hrow : row.organization ≠ requester.organization) :
    (upsertAgent db requester name hash).1.agents.get a = some row ↔
      db.agents.get a = some row := by
  unfold upsertAgent
  dsimp only
  split
  · rename_i id hid
    obtain ⟨own, hown, horganization⟩ := agentOf?_organization hid
    rw [Table.get_modify]
    split
    · rename_i ha
      rw [ha, hown]
      constructor
      · intro h
        rw [← Option.some.inj h] at hrow
        exact absurd horganization hrow
      · intro h
        rw [← Option.some.inj h] at hrow
        exact absurd horganization hrow
    · exact Iff.rfl
  · constructor
    · intro h
      rcases Table.get_insert_cases h with ⟨_, rfl⟩ | ⟨_, h⟩
      · exact absurd rfl hrow
      · exact h
    · exact Table.get_insert_of_get

theorem upsertAgent_locks : (upsertAgent db requester name hash).1.locks = db.locks := by
  rw [upsertAgent_frame]

theorem upsertAgent_states : (upsertAgent db requester name hash).1.states = db.states := by
  rw [upsertAgent_frame]

theorem untouched_upsertAgent (hforeign : o ≠ requester.organization) :
    Untouched o db (upsertAgent db requester name hash).1 := by
  have hsame := @upsertAgent_registry db requester name hash
  refine {
    agents := fun a row ho => upsertAgent_agents (ho ▸ hforeign)
    actions := fun k row _ => by rw [hsame.actions]
    derived := fun k _ _ _ => hsame.view k
    implementations := fun i row _ hrow => ⟨row, ?_, rfl⟩
    noOthers := fun i row _ hrow => ⟨row, ?_, rfl⟩
    states := fun k row _ => by rw [upsertAgent_states]
    locks := fun k row _ => by rw [upsertAgent_locks] }
  · rw [hsame.implementations]
    exact hrow
  · rw [← hsame.implementations]
    exact hrow

theorem TestsWithin.congr (h : SameRegistry db db') (hdb : TestsWithin db) : TestsWithin db' := by
  intro k row j hrow hj
  have hlinks : db'.isTestFor k = db.isTestFor k := (congrArg ActionView.isTestFor (h.view k) :)
  rw [h.actions] at hrow ⊢
  rw [hlinks] at hj
  exact hdb k row j hrow hj

theorem midway_upsertAgent (hdb : Segregated db) : Midway requester.organization
    (upsertAgent db requester name hash).2 (upsertAgent db requester name hash).1 := by
  have hsame := @upsertAgent_registry db requester name hash
  refine {
    agent := upsertAgent_owns
    own := fun i row action hrow hagent haction => ?_
    others := fun i row hrow _ => ?_
    tests := hdb.tests.congr hsame }
  · rw [hsame.implementations] at hrow
    rw [hsame.actions] at haction
    obtain ⟨action', haction', howns⟩ := hdb.implementations i row hrow
    rw [haction] at haction'
    have hlater : Owns (upsertAgent db requester name hash).1 action'.organization row.agent :=
      howns.upsertAgent
    rw [hagent] at hlater
    rw [Option.some.inj haction']
    exact hlater.unique upsertAgent_owns
  · rw [hsame.implementations] at hrow
    rw [hsame.actions]
    obtain ⟨action, haction, howns⟩ := hdb.implementations i row hrow
    exact ⟨action, haction, howns.upsertAgent⟩

end

/-! ## What leaves the actions and the implementations alone -/

theorem Midway.congr (h : SameRegistry db db') (hagents : db'.agents = db.agents)
    (hdb : Midway p agentId db) : Midway p agentId db' where
  agent := by
    rw [Owns, hagents]
    exact hdb.agent
  own i row action hrow hagent haction := by
    rw [h.implementations] at hrow
    rw [h.actions] at haction
    exact hdb.own i row action hrow hagent haction
  others i row hrow hagent := by
    rw [h.implementations] at hrow
    rw [h.actions]
    simp only [Owns, hagents]
    exact hdb.others i row hrow hagent
  tests := hdb.tests.congr h

/-- Where the agents are the same, and the states and the locks of other agents. -/
theorem untouched_of_sameRegistry (h : SameRegistry db db') (hagents : db'.agents = db.agents)
    (hagent : ¬Owns db o agentId)
    (hstates : ∀ k row, row.agent ≠ agentId →
      (db'.states.get k = some row ↔ db.states.get k = some row))
    (hlocks : ∀ k row, row.agent ≠ agentId →
      ((db'.locks.get k).map unheld = some row ↔ (db.locks.get k).map unheld = some row)) :
    Untouched o db db' := by
  have hother : ∀ a, Owns db o a → a ≠ agentId := by
    rintro a howns rfl
    exact hagent howns
  refine {
    agents := fun a row _ => by rw [hagents]
    actions := fun k row _ => by rw [h.actions]
    derived := fun k _ _ _ => h.view k
    implementations := fun i row _ hrow => ⟨row, ?_, rfl⟩
    noOthers := fun i row _ hrow => ⟨row, ?_, rfl⟩
    states := fun k row howns => hstates k row (hother _ howns)
    locks := fun k row howns => hlocks k row (hother _ howns) }
  · rw [h.implementations]
    exact hrow
  · rw [← h.implementations]
    exact hrow

theorem registerLocks_elsewhere {inputs : List LockInput}
    (h : inputs.foldlM (registerLock agentId) db = .ok db') {k : Nat} {row : Lock}
    (hrow : row.agent ≠ agentId) : db'.locks.get k = some row ↔ db.locks.get k = some row := by
  obtain ⟨log, locks, _, hupserts, rfl⟩ := registerLocks_iff.mp h
  refine hupserts.elsewhere lockWrites_overwrites fun w hw hplace => ?_
  obtain ⟨e, _, rfl⟩ := List.mem_map.mp hw
  exact hrow (congrArg Prod.fst hplace).symm

theorem registerStates_elsewhere {inputs : List StateInput} {r : Database × List StateId}
    (h : registerStates H agentId agent db inputs = .ok r) {k : StateId} {row : State}
    (hrow : row.agent ≠ agentId) : r.1.states.get k = some row ↔ db.states.get k = some row := by
  obtain ⟨log, _, states, _, _, _, hupserts, hr⟩ := registerStates_iff.mp h
  rw [hr]
  refine hupserts.elsewhere stateWrites_overwrites fun w hw hplace => ?_
  obtain ⟨e, _, rfl⟩ := List.mem_map.mp hw
  exact hrow (congrArg Prod.snd hplace).symm

theorem reapStates_elsewhere {kept : List StateId} {k : StateId} {row : State}
    (hrow : row.agent ≠ agentId) :
    (reapStates db agentId kept).states.get k = some row ↔ db.states.get k = some row := by
  refine Table.get_erase_eq_some_iff.trans (and_iff_left_of_imp fun hget => ?_)
  show (db.states.get k).any _ = false
  rw [hget]
  simp [hrow]

theorem midway_of_reaped {kept : List ImplementationId} (h : Reaped db agentId kept db')
    (hagents : db'.agents = db.agents) (hdb : Midway p agentId db) : Midway p agentId db' where
  agent := by
    rw [Owns, hagents]
    exact hdb.agent
  own i row action hrow hagent haction := by
    obtain ⟨before, hbefore, halike, _⟩ := h.implementations i row hrow
    rw [halike.agent] at hagent
    rw [halike.action, h.actions] at haction
    exact hdb.own i before action hbefore hagent haction
  others i row hrow hagent := by
    obtain ⟨before, hbefore, halike, _⟩ := h.implementations i row hrow
    rw [halike.agent] at hagent
    rw [halike.action, halike.agent, h.actions]
    simp only [Owns, hagents]
    exact hdb.others i before hbefore hagent
  tests := by
    intro k row j hrow hj
    have hlinks : db'.isTestFor k = db.isTestFor k := (congrArg ActionView.isTestFor (h.view k) :)
    rw [h.actions] at hrow ⊢
    rw [hlinks] at hj
    exact hdb.tests k row j hrow hj

theorem untouched_of_reaped {kept : List ImplementationId}
    (h : reapImplementations db agentId kept = .ok db') (hagent : ¬Owns db o agentId) :
    Untouched o db db' := by
  have hsame := sameEquipment_reap h
  have hreaped := reapImplementations_ok h
  refine {
    agents := fun a row _ => by rw [hsame.agents]
    actions := fun k row _ => by rw [hreaped.actions]
    derived := fun k _ _ _ => hreaped.view k
    implementations := fun i row howns hrow => ?_
    noOthers := fun i row _ hrow => ?_
    states := fun k row _ => by rw [hsame.states]
    locks := fun k row _ => by rw [hsame.locks k] }
  · refine hreaped.stay i row hrow fun hown => ?_
    rw [hown] at howns
    exact absurd howns hagent
  · obtain ⟨before, hbefore, halike, _⟩ := hreaped.implementations i row hrow
    exact ⟨before, hbefore, halike⟩

/-! ## Calls -/

/-- A call of an agent leaves other organizations untouched. -/
theorem untouched_of_implementAgent {input : AgentInput} {uuid : String} {r : Database × AgentId}
    (h : implementAgent H db requester input uuid = .ok r) (hdb : Segregated db) :
    (o ≠ requester.organization → Untouched o db r.1) ∧
      Midway requester.organization r.2 r.1 := by
  obtain ⟨upserted, agent, locked, batch, states, reaped, hparts⟩ := equipped_of_implementAgent h
  have horganization : agent.organization = requester.organization := by
    have hfound := hparts.found
    rw [← hparts.upserts] at hfound
    exact (upsertAgent_agent hfound).1
  rw [hparts.agentId]
  -- the invariant of the batch, along the parts of the call
  have hupserted : Midway requester.organization upserted.2 upserted.1 := by
    rw [← hparts.upserts]
    exact midway_upsertAgent hdb
  have hlockedSame := SameRegistry.foldlM (fun _ _ _ h => registerLock_registry h) hparts.locks
  have hlockedAgents : locked.agents = upserted.1.agents := by
    rw [registerLocks_frame hparts.locks]
  have hlocked := hupserted.congr hlockedSame hlockedAgents
  have hturn : ∀ db₀, Midway requester.organization upserted.2 db₀ → ∀ input found current r k db₁,
      register H db₀ upserted.2 agent input found current = .ok r →
      Looked db₀ upserted.2 agent input found current →
      Turned H db₀ upserted.2 agent input found current r k db₁ →
      Midway requester.organization upserted.2 r.db ∧
        (o ≠ requester.organization → Untouched o db₀ r.db) := by
    intro db₀ hmid input found current r k db₁ hr hlook hturned
    rw [← horganization] at hmid ⊢
    exact ⟨midway_of_turned hr hlook hturned hmid, untouched_of_turned hr hlook hturned hmid⟩
  have hbatch : Midway requester.organization upserted.2 batch.db ∧
      (o ≠ requester.organization → Untouched o locked batch.db) :=
    registerBatch_invariant (I := fun db₀ => Midway requester.organization upserted.2 db₀ ∧
      (o ≠ requester.organization → Untouched o locked db₀))
      (fun input _ db₀ found current r k db₁ hr hlook hturned hinv => by
        obtain ⟨hmid, huntouched⟩ := hturn db₀ hinv.1 input found current r k db₁ hr hlook hturned
        exact ⟨hmid, fun hforeign => (hinv.2 hforeign).trans (huntouched hforeign)⟩)
      ⟨hlocked, fun _ => .refl⟩ hparts.registers
  have hstatesSame : SameRegistry batch.db (reapStates states.1 upserted.2 states.2) :=
    (registerStates_registry hparts.stated).trans reapStates_registry
  have hstatesAgents : (reapStates states.1 upserted.2 states.2).agents = batch.db.agents := by
    show states.1.agents = _
    rw [registerStates_frame hparts.stated]
  have hstatesLocks : (reapStates states.1 upserted.2 states.2).locks = batch.db.locks := by
    show states.1.locks = _
    rw [registerStates_frame hparts.stated]
  have hstates := hbatch.1.congr hstatesSame hstatesAgents
  have hreaped := midway_of_reaped (reapImplementations_ok hparts.reaps)
    (sameEquipment_reap hparts.reaps).agents hstates
  have hbloksSame : SameRegistry reaped r.1 :=
    SameRegistry.foldlM (fun _ _ _ h => registerBlok_registry h) hparts.bloks
  have hbloks := registerBloks_onlyBloks hparts.bloks
  refine ⟨fun hforeign => ?_, hreaped.congr hbloksSame hbloks.agents⟩
  -- what the organization has, along the same parts
  have hnot : ∀ db₀, Midway requester.organization upserted.2 db₀ → ¬Owns db₀ o upserted.2 :=
    fun db₀ hmid howns => hforeign (howns.unique hmid.agent)
  have hfirst : Untouched o db upserted.1 := by
    rw [← hparts.upserts]
    exact untouched_upsertAgent hforeign
  have hsecond : Untouched o upserted.1 locked := by
    refine untouched_of_sameRegistry hlockedSame hlockedAgents (hnot _ hupserted)
      (fun k row _ => by rw [registerLocks_frame hparts.locks]) fun k row hrow => ?_
    rw [Option.map_eq_some_iff, Option.map_eq_some_iff]
    refine exists_congr fun lock => and_congr_left fun hlock => ?_
    refine registerLocks_elsewhere hparts.locks ?_
    rw [← hlock] at hrow
    exact hrow
  have hthird : Untouched o batch.db (reapStates states.1 upserted.2 states.2) := by
    refine untouched_of_sameRegistry hstatesSame hstatesAgents (hnot _ hbatch.1)
      (fun k row hrow => ?_) fun k row _ => by rw [hstatesLocks]
    exact (reapStates_elsewhere hrow).trans (registerStates_elsewhere hparts.stated hrow)
  have hfourth : Untouched o (reapStates states.1 upserted.2 states.2) reaped :=
    untouched_of_reaped hparts.reaps (hnot _ hstates)
  have hfifth : Untouched o reaped r.1 :=
    untouched_of_sameRegistry hbloksSame hbloks.agents (hnot _ hreaped)
      (fun k row _ => by rw [hbloks.states]) fun k row _ => by rw [hbloks.locks]
  exact (((hfirst.trans hsecond).trans (hbatch.2 hforeign)).trans hthird).trans
    (hfourth.trans hfifth)

theorem untouched_of_createImplementationFor {input : ImplementationInput} {r : Registered}
    (h : createImplementationFor H db requester input = .ok r) (hdb : Segregated db) :
    ∃ a, (o ≠ requester.organization → Untouched o db r.db) ∧
      Midway requester.organization a r.db := by
  obtain ⟨agent, hagent, h⟩ := bind_ok_iff.mp h
  rw [orRaise_ok_iff] at hagent
  have horganization := (upsertAgent_agent hagent).1
  have hmid := @midway_upsertAgent db requester requester.client.clientId none hdb
  have hlook := @looked_createImplementation (upsertAgent db requester requester.client.clientId
    none).1 (upsertAgent db requester requester.client.clientId none).2 agent input
  obtain ⟨k, db₁, hturned⟩ := turned_of_register h hlook
  rw [← horganization] at hmid ⊢
  refine ⟨_, fun hforeign => ?_, midway_of_turned h hlook hturned hmid⟩
  refine Untouched.trans (untouched_upsertAgent ?_) (untouched_of_turned h hlook hturned hmid hforeign)
  rwa [← horganization]

theorem Segregated.linked (hdb : Segregated db) : Linked db := by
  intro i row hrow
  obtain ⟨action, haction, _⟩ := hdb.implementations i row hrow
  rw [haction]
  rfl

theorem Midway.segregated (hdb : Midway p agentId db) (hlinked : Linked db) : Segregated db where
  implementations i row hrow := by
    by_cases hagent : row.agent = agentId
    · obtain ⟨action, haction⟩ := Option.isSome_iff_exists.mp (hlinked i row hrow)
      refine ⟨action, haction, ?_⟩
      rw [hdb.own i row action hrow hagent haction, hagent]
      exact hdb.agent
    · exact hdb.others i row hrow hagent
  tests := hdb.tests

/-- No call mixes organizations. -/
theorem segregated_of_run {call : Call} (hdb : Segregated db) : Segregated (call.run H db) := by
  have hlinked := @linked_of_run H db call hdb.linked
  cases call with
  | implementAgent requester input uuid =>
    rw [Call.run] at hlinked ⊢
    split
    · rename_i r hr
      rw [hr] at hlinked
      exact (@untouched_of_implementAgent _ _ _ requester.organization _ _ _ hr hdb).2.segregated
        hlinked
    · exact hdb
  | createImplementation requester input =>
    rw [Call.run] at hlinked ⊢
    split
    · rename_i r hr
      rw [hr] at hlinked
      obtain ⟨_, _, hmid⟩ :=
        @untouched_of_createImplementationFor _ _ _ requester.organization _ _ hr hdb
      exact hmid.segregated hlinked
    · rename_i e he
      rw [he] at hlinked
      exact (midway_upsertAgent hdb).segregated hlinked

theorem segregated_empty : Segregated {} where
  implementations _ _ hrow := by cases hrow
  tests _ _ _ hrow := by cases hrow

theorem untouched_of_run {call : Call} (hdb : Segregated db)
    (hforeign : call.requester.organization ≠ o) : Untouched o db (call.run H db) := by
  cases call with
  | implementAgent requester input uuid =>
    rw [Call.run]
    split
    · rename_i r hr
      exact (untouched_of_implementAgent hr hdb).1 hforeign.symm
    · exact .refl
  | createImplementation requester input =>
    rw [Call.run]
    split
    · rename_i r hr
      obtain ⟨_, huntouched, _⟩ := untouched_of_createImplementationFor hr hdb
      exact huntouched hforeign.symm
    · exact untouched_upsertAgent hforeign.symm

theorem segregated_of_runCalls {calls : List Call} (hdb : Segregated db) :
    Segregated (runCalls H db calls) := by
  induction calls generalizing db with
  | nil => exact hdb
  | cons call calls ih => exact ih (segregated_of_run hdb)

/-- Registrations of other organizations leave an organization's own untouched, however many. -/
theorem untouched_of_runs {calls : List Call} (hdb : Segregated db)
    (hforeign : ∀ call ∈ calls, call.requester.organization ≠ o) :
    Segregated (runCalls H db calls) ∧ Untouched o db (runCalls H db calls) := by
  refine ⟨segregated_of_runCalls hdb, ?_⟩
  induction calls generalizing db with
  | nil => exact .refl
  | cons call calls ih =>
    have hfirst := untouched_of_run (H := H) hdb (hforeign call List.mem_cons_self)
    have hsegregated := @segregated_of_run H db call hdb
    exact hfirst.trans (ih hsegregated fun c hc => hforeign c (List.mem_cons_of_mem _ hc))

/-- The microscope of another organization. -/
def guestBench : Requester := { bench 1 with organization := ⟨2, "guests"⟩ }

theorem guest_leaves_cabinet :
    let db := runCalls naming {} [.implementAgent (bench 1) cabinet "a"]
    let db' := runCalls naming db [.implementAgent guestBench cabinet "b",
      .implementAgent guestBench {} "c"]
    Segregated db' ∧ Untouched ⟨1, "org"⟩ db db' :=
  untouched_of_runs (segregated_of_runCalls segregated_empty) (by decide)

end Registration
end Rekuest
