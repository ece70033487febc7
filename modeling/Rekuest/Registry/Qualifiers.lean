import Rekuest.Registry.Described

/-!
# Rekuest.Registry.Qualifiers

The qualifiers of an action against its implementations.

* `Coherent`: a pure action is idempotent and not stateful, and nothing that implements it is
  physical.
* `Call.Harmless`: no definition is declared as pure that another agent implements physically.
* `coherent_of_runs`: harmless calls keep the qualifiers coherent. The check of a registration
  sees one implementation only, so other calls do not.
-/

namespace Rekuest
namespace Registration

open Interleave (Table)

def Coherent (db : Database) : Prop :=
  ∀ k row, db.actions.get k = some row → row.pure = true →
    row.idempotent = true ∧ row.stateful = false ∧
      ∀ i implementation, db.implementations.get i = some implementation →
        implementation.action = k → implementation.effect ≠ .physical

/-- The action that the requester declares is implemented by another agent, physically. -/
def PhysicalElsewhere (db : Database) (requester : Requester) (definition : Definition) : Prop :=
  ∃ i implementation row, db.implementations.get i = some implementation ∧
    db.agentOf? requester.toAgentIdentity ≠ some implementation.agent ∧
    implementation.effect = .physical ∧ db.actions.get implementation.action = some row ∧
    row.coordinate = (requester.organization, requester.app, definition.key, definition.version)

def Call.Harmless (call : Call) (db : Database) : Prop :=
  ∀ input ∈ call.inputs, input.definition.pure = true →
    ¬PhysicalElsewhere db call.requester input.definition

variable {H : Hashing} {D : Set Identity} {db db' db₀ db₁ : Database} {agentId : AgentId}
  {agent : Agent} {input : ImplementationInput} {found : Option (Instance Action)}
  {current : Option ImplementationRef} {k : ActionId} {r : Registered}

/-- The implementations of other agents, and the coordinates of their actions, are as they were
in `db₀`. -/
def OthersKept (db₀ : Database) (agentId : AgentId) (db : Database) : Prop :=
  ∀ i row, db.implementations.get i = some row → row.agent ≠ agentId →
    ∃ before action₀ action, db₀.implementations.get i = some before ∧ Alike before row ∧
      db₀.actions.get row.action = some action₀ ∧ db.actions.get row.action = some action ∧
      action.coordinate = action₀.coordinate

/-- Every implementation has its action. -/
def Linked (db : Database) : Prop :=
  ∀ i row, db.implementations.get i = some row → (db.actions.get row.action).isSome = true

/-! ## One registration -/

/-- The action of another implementation stays, under its coordinate. -/
theorem Turned.action_stays (hlook : Looked db agentId agent input found current)
    (h : Turned H db agentId agent input found current r k db₁) {i : ImplementationId}
    {before : Implementation} {action : Action} (hi : i ≠ r.implementation.1)
    (hbefore : db.implementations.get i = some before)
    (haction : db.actions.get before.action = some action) :
    ∃ after, r.db.actions.get before.action = some after ∧
      after.coordinate = action.coordinate := by
  -- it was not deleted: then it would be that of the interface
  have hdrop : r.dropped ≠ some before.action := by
    intro hdrop
    obtain ⟨_, _, hcount, ref, href, hrefa⟩ := h.gone _ hdrop
    obtain ⟨_, _, own, hown, hlike⟩ := hlook.current ref href
    have howna : own.action = before.action := by
      rw [hlike]
      exact hrefa
    have hid := implementationCount_eq_one hcount hown howna hbefore rfl
    rw [h.id, href] at hi
    exact hi hid
  by_cases hk : before.action = k
  · rw [hk] at haction ⊢
    -- the action is the one that was registered, which keeps its coordinate
    have hfound : ∃ a, found = some a ∧ a.pk = some k := by
      by_contra hnone
      have hnew := h.new fun a ha => by
        by_contra hpk
        obtain ⟨j, hj⟩ := Option.ne_none_iff_exists'.mp hpk
        exact hnone ⟨a, ha, by rw [h.same a j ha hj, hj]⟩
      rw [hnew, Table.get_next] at haction
      cases haction
    obtain ⟨a, ha, hpk⟩ := hfound
    have hrow := (hlook.fits a ha k hpk).2 action haction
    obtain ⟨own, hown⟩ : ∃ own, r.db.actions.get k = some own := by
      have hview : r.db.actions.get k = db₁.actions.get k := (congrArg ActionView.row h.own :)
      rw [hview]
      cases h.acted with
      | rewritten h => exact ⟨_, h.settled.get⟩
      | kept before h => exact ⟨_, h.settled.get⟩
      | stale hstale =>
        have hgone := hstale.gone k h.pk
        rw [haction] at hgone
        cases hgone
    have hfit := (h.fits k h.pk).2 own hown
    exact ⟨own, hown, by rw [hfit, h.coordinate, hrow, hlook.coordinate a ha]⟩
  · have hview := h.others before.action hk hdrop
    have hget : r.db.actions.get before.action = db.actions.get before.action :=
      (congrArg ActionView.row hview :)
    exact ⟨action, hget.trans haction, rfl⟩

theorem Turned.other (h : Turned H db agentId agent input found current r k db₁)
    {i : ImplementationId} {row : Implementation} (hrow : r.db.implementations.get i = some row)
    (hagent : row.agent ≠ agentId) :
    i ≠ r.implementation.1 ∧ ∃ before, db.implementations.get i = some before ∧
      Alike before row := by
  have hi : i ≠ r.implementation.1 := by
    intro hi
    rw [hi, h.installed] at hrow
    rw [← Option.some.inj hrow] at hagent
    exact hagent h.row.2.1
  exact ⟨hi, h.implementations i row hi hrow⟩

theorem othersKept_of_turned (hlook : Looked db agentId agent input found current)
    (h : Turned H db agentId agent input found current r k db₁)
    (hdb : OthersKept db₀ agentId db) : OthersKept db₀ agentId r.db := by
  intro i row hrow hagent
  obtain ⟨hi, before, hbefore, halike⟩ := h.other hrow hagent
  have hsame : row.agent = before.agent ∧ row.action = before.action := by
    rw [halike]
    exact ⟨rfl, rfl⟩
  obtain ⟨start, action₀, action, hstart, halike₀, haction₀, haction, hcoordinate⟩ :=
    hdb i before hbefore (hsame.1 ▸ hagent)
  obtain ⟨after, hafter, hafterc⟩ := h.action_stays hlook hi hbefore haction
  rw [hsame.2]
  exact ⟨start, action₀, after, hstart, halike₀.trans halike, haction₀, hafter,
    hafterc.trans hcoordinate⟩

theorem othersKept_of_sameRegistry (h : SameRegistry db db') (hdb : OthersKept db₀ agentId db) :
    OthersKept db₀ agentId db' := by
  rw [OthersKept, h.actions, h.implementations]
  exact hdb

theorem othersKept_of_reaped {kept : List ImplementationId} (h : Reaped db agentId kept db')
    (hdb : OthersKept db₀ agentId db) : OthersKept db₀ agentId db' := by
  intro i row hrow hagent
  obtain ⟨before, hbefore, halike, _⟩ := h.implementations i row hrow
  have hsame : row.agent = before.agent ∧ row.action = before.action := by
    rw [halike]
    exact ⟨rfl, rfl⟩
  obtain ⟨start, action₀, action, hstart, halike₀, haction₀, haction, hcoordinate⟩ :=
    hdb i before hbefore (hsame.1 ▸ hagent)
  rw [h.actions, hsame.2]
  exact ⟨start, action₀, action, hstart, halike₀.trans halike, haction₀, haction, hcoordinate⟩

theorem othersKept_start (hlinked : Linked db) (h : SameRegistry db db') :
    OthersKept db agentId db' := by
  refine othersKept_of_sameRegistry h fun i row hrow _ => ?_
  obtain ⟨action, haction⟩ := Option.isSome_iff_exists.mp (hlinked i row hrow)
  exact ⟨row, action, action, hrow, rfl, haction, haction, rfl⟩

/-- A registration keeps the qualifiers coherent where no other agent implements the action
physically. -/
theorem coherent_of_turned (hD : Set.InjOn H.definition D)
    (hd : input.definition.toIdentity ∈ D)
    (hr : register H db agentId agent input found current = .ok r)
    (h : Turned H db agentId agent input found current r k db₁)
    (hdescribed : Described H D r.db) (hdb : Coherent db)
    (hquiet : input.definition.pure = true → ∀ i row, r.db.implementations.get i = some row →
      row.agent ≠ agentId → row.action = k → (r.db.actions.get k).isSome = true →
        row.effect ≠ .physical) : Coherent r.db := by
  intro j row hget hpure
  by_cases hj : j = k
  · subst hj
    obtain ⟨hrow, _, _⟩ := h.own_row hget
    obtain ⟨hdeclared, hidempotent, hhash⟩ := h.acted.qualified
    rw [hrow] at hpure
    have hpure' : input.definition.pure = true := hdeclared.symm.trans hpure
    obtain ⟨heffect, hstateful⟩ := checkQualifiers_of_register hr hpure'
    refine ⟨?_, ?_, fun i implementation hi haction => ?_⟩
    · rw [hrow, hidempotent, Definition.desiredIdempotent, hpure', Bool.or_true]
    · obtain ⟨d, hdD, hdes⟩ := hdescribed.described j row hget
      have hsame : d = input.definition.toIdentity := by
        refine hD hdD hd (hdes.hash.symm.trans ?_)
        rw [hrow, hhash]
      rw [hdes.stateful, hsame]
      exact hstateful
    · by_cases hown : i = r.implementation.1
      · rw [hown, h.installed] at hi
        rw [← Option.some.inj hi, h.row.2.2.2]
        exact heffect
      · by_cases hagent : implementation.agent = agentId
        · have halone := (h.alone i implementation hown hi (hagent.trans h.row.2.1.symm)).2
          rw [h.row.2.2.1] at halone
          exact absurd haction halone
        · exact hquiet hpure' i implementation hi hagent haction (by rw [hget]; rfl)
  · obtain ⟨hbefore, _⟩ := h.other_row hj hget
    obtain ⟨hidempotent, hstateful, hphysical⟩ := hdb j row hbefore hpure
    refine ⟨hidempotent, hstateful, fun i implementation hi haction => ?_⟩
    have hown : i ≠ r.implementation.1 := by
      intro hown
      rw [hown, h.installed] at hi
      rw [← Option.some.inj hi] at haction
      exact hj (haction.symm.trans h.row.2.2.1)
    obtain ⟨before, hbefore, halike⟩ := h.implementations i implementation hown hi
    have hsame : implementation.effect = before.effect ∧
        implementation.action = before.action := by
      rw [halike]
      exact ⟨rfl, rfl⟩
    rw [hsame.1]
    exact hphysical i before hbefore (hsame.2.symm.trans haction)

/-- Nothing that is declared as pure is physical elsewhere, and so it stays. -/
theorem quiet_of_harmless {requester : Requester}
    (hagent : agent.organization = requester.organization ∧ agent.app = requester.app)
    (hself : ∀ id, db₀.agentOf? requester.toAgentIdentity = some id → agentId = id)
    (hharmless : ¬PhysicalElsewhere db₀ requester input.definition)
    (h : Turned H db agentId agent input found current r k db₁)
    (hothers : OthersKept db₀ agentId r.db) :
    ∀ i row, r.db.implementations.get i = some row → row.agent ≠ agentId → row.action = k →
      (r.db.actions.get k).isSome = true → row.effect ≠ .physical := by
  intro i row hrow hne haction hthere heffect
  obtain ⟨before, action₀, action, hbefore, halike, haction₀, hactionk, hcoordinate⟩ :=
    hothers i row hrow hne
  have hsame : row.agent = before.agent ∧ row.action = before.action ∧
      row.effect = before.effect := by
    rw [halike]
    exact ⟨rfl, rfl, rfl⟩
  refine hharmless ⟨i, before, action₀, hbefore, fun hid => ?_, hsame.2.2.symm.trans heffect,
    hsame.2.1 ▸ haction₀, ?_⟩
  · exact hne (hsame.1.trans (hself _ hid).symm)
  · rw [haction] at hactionk
    rw [← hcoordinate, (h.fits k h.pk).2 action hactionk, h.coordinate, hagent.1, hagent.2]

/-! ## Histories -/

/-- What is kept within a call of an agent that began at `db₀`. -/
structure KeptWithin (H : Hashing) (D : Set Identity) (db₀ : Database) (agentId : AgentId)
    (db : Database) : Prop where
  described : Described H D db
  coherent : Coherent db
  others : OthersKept db₀ agentId db

theorem keptWithin_of_turned {requester : Requester} (hD : Set.InjOn H.definition D)
    (hd : input.definition.toIdentity ∈ D)
    (hagent : agent.organization = requester.organization ∧ agent.app = requester.app)
    (hself : ∀ id, db₀.agentOf? requester.toAgentIdentity = some id → agentId = id)
    (hharmless : input.definition.pure = true → ¬PhysicalElsewhere db₀ requester input.definition)
    (hr : register H db agentId agent input found current = .ok r)
    (hlook : Looked db agentId agent input found current)
    (h : Turned H db agentId agent input found current r k db₁)
    (hdb : KeptWithin H D db₀ agentId db) : KeptWithin H D db₀ agentId r.db := by
  have hdescribed := described_of_turned hD hd hlook h hdb.described
  have hothers := othersKept_of_turned hlook h hdb.others
  exact ⟨hdescribed, coherent_of_turned hD hd hr h hdescribed hdb.coherent fun hpure =>
    quiet_of_harmless hagent hself (hharmless hpure) h hothers, hothers⟩

theorem keptWithin_of_sameRegistry (h : SameRegistry db db')
    (hdb : KeptWithin H D db₀ agentId db) : KeptWithin H D db₀ agentId db' where
  described := described_of_sameRegistry h hdb.described
  coherent := by
    rw [Coherent, h.actions, h.implementations]
    exact hdb.coherent
  others := othersKept_of_sameRegistry h hdb.others

theorem keptWithin_of_reaped {kept : List ImplementationId} (h : Reaped db agentId kept db')
    (hdb : KeptWithin H D db₀ agentId db) : KeptWithin H D db₀ agentId db' where
  described := described_of_reaped h hdb.described
  coherent k row hget hpure := by
    rw [h.actions] at hget
    obtain ⟨hidempotent, hstateful, hphysical⟩ := hdb.coherent k row hget hpure
    refine ⟨hidempotent, hstateful, fun i implementation hi haction => ?_⟩
    obtain ⟨before, hbefore, halike, _⟩ := h.implementations i implementation hi
    have hsame : implementation.effect = before.effect ∧
        implementation.action = before.action := by
      rw [halike]
      exact ⟨rfl, rfl⟩
    rw [hsame.1]
    exact hphysical i before hbefore (hsame.2.symm.trans haction)
  others := othersKept_of_reaped h hdb.others

theorem keptWithin_start (hdescribed : Described H D db) (hcoherent : Coherent db)
    (hlinked : Linked db) (h : SameRegistry db db') : KeptWithin H D db agentId db' := by
  exact keptWithin_of_sameRegistry h ⟨hdescribed, hcoherent, othersKept_start hlinked .refl⟩

theorem linked_of_commits (hothers : OthersKept db₀ agentId db)
    (hcommits : Database.commits db agentId = true) : Linked db := by
  intro i row hrow
  by_cases hagent : row.agent = agentId
  · by_contra hnone
    have hmem : (i, row) ∈ db.implementations.select fun _ row =>
        row.agent = agentId && (db.actions.get row.action).isNone :=
      Table.mem_select.mpr ⟨hrow, by simpa [hagent] using hnone⟩
    rw [List.isEmpty_iff.mp hcommits] at hmem
    cases hmem
  · obtain ⟨_, _, action, _, _, _, haction, _⟩ := hothers i row hrow hagent
    rw [haction]
    rfl

theorem linked_of_createImplementation
    (hr : createImplementation H db agentId agent input = .ok r) (hdb : Linked db) :
    Linked r.db := by
  have hlook := @looked_createImplementation db agentId agent input
  obtain ⟨k, db₁, h⟩ := turned_of_register hr hlook
  intro i row hrow
  by_cases hi : i = r.implementation.1
  · rw [hi, h.installed] at hrow
    rw [← Option.some.inj hrow, h.row.2.2.1]
    have hview : r.db.actions.get k = db₁.actions.get k := (congrArg ActionView.row h.own :)
    rw [hview]
    cases h.acted with
    | rewritten h => rw [h.settled.get]; rfl
    | kept before h => rw [h.settled.get]; rfl
    | stale hstale =>
      obtain ⟨j, hj, hget, _⟩ := findAction_eq_some hstale.found
      rw [hstale.gone j hj] at hget
      cases hget
  · obtain ⟨before, hbefore, halike⟩ := h.implementations i row hi hrow
    have hsame : row.action = before.action := by rw [halike]
    obtain ⟨action, haction⟩ := Option.isSome_iff_exists.mp (hdb i before hbefore)
    obtain ⟨after, hafter, _⟩ := h.action_stays hlook hi hbefore haction
    rw [hsame, hafter]
    rfl

/-- No call leaves an implementation without its action. -/
theorem linked_of_run {call : Call} (hdb : Linked db) : Linked (call.run H db) := by
  cases call with
  | implementAgent requester input uuid =>
    rw [Call.run]
    split
    · rename_i r hr
      obtain ⟨begun, batch, db₁, db₂, hcalled⟩ := implementAgent_ok hr
      have hbegun := beginAgent_ok hcalled.begins
      have hbatch : OthersKept db begun.2.1 batch.db := registerBatch_invariant
        (fun _ _ _ _ _ _ _ _ _ hlook hturned hothers => othersKept_of_turned hlook hturned hothers)
        (othersKept_start hdb hbegun.registry) hcalled.registered
      exact linked_of_commits (othersKept_of_sameRegistry hcalled.bloks
        (othersKept_of_reaped hcalled.reaped (othersKept_of_sameRegistry hcalled.states hbatch)))
        hcalled.commits
    · exact hdb
  | createImplementation requester input =>
    rw [Call.run]
    split
    · rename_i r hr
      obtain ⟨agent, agentId, db₀, _, _, _, hbefore, hcreate⟩ := createImplementationFor_ok hr
      refine linked_of_createImplementation hcreate ?_
      rw [Linked, hbefore.actions, hbefore.implementations]
      exact hdb
    · have hupsert := @upsertAgent_registry db requester requester.client.clientId none
      rw [Linked, hupsert.actions, hupsert.implementations]
      exact hdb

/-- One call. -/
theorem coherent_of_run (hD : Set.InjOn H.definition D) {call : Call} (hcall : call.Declares D)
    (hharmless : call.Harmless db) (hdescribed : Described H D db) (hcoherent : Coherent db)
    (hlinked : Linked db) : Coherent (call.run H db) := by
  cases call with
  | implementAgent requester input uuid =>
    rw [Call.run]
    split
    · rename_i r hr
      obtain ⟨begun, batch, db₁, db₂, hcalled⟩ := implementAgent_ok hr
      have hbegun := beginAgent_ok hcalled.begins
      have hbatch : KeptWithin H D db begun.2.1 batch.db := registerBatch_invariant
        (fun input hinput _ _ _ _ _ _ hr hlook hturned hdb =>
          keptWithin_of_turned hD (hcall input hinput) hbegun.identity hbegun.self
            (hharmless input hinput) hr hlook hturned hdb)
        (keptWithin_start hdescribed hcoherent hlinked hbegun.registry) hcalled.registered
      have hend := keptWithin_of_sameRegistry hcalled.bloks (keptWithin_of_reaped hcalled.reaped
        (keptWithin_of_sameRegistry hcalled.states hbatch))
      exact hend.coherent
    · exact hcoherent
  | createImplementation requester input =>
    rw [Call.run]
    split
    · rename_i r hr
      obtain ⟨agent, agentId, db₀, horganization, happ, hself, hbefore, hcreate⟩ :=
        createImplementationFor_ok hr
      obtain ⟨k, db₁, hturned⟩ := turned_of_register hcreate looked_createImplementation
      have hinput := List.mem_singleton.mpr (rfl : input = input)
      have hend := keptWithin_of_turned hD (hcall input hinput) ⟨horganization, happ⟩ hself
        (hharmless input hinput) hcreate looked_createImplementation hturned
        (keptWithin_start hdescribed hcoherent hlinked hbefore)
      exact hend.coherent
    · have hupsert := @upsertAgent_registry db requester requester.client.clientId none
      rw [Coherent, hupsert.actions, hupsert.implementations]
      exact hcoherent

/-- The qualifiers stay coherent along every history in which nothing is declared as pure that
another agent implements physically, if no two declared definitions share a hash. -/
theorem coherent_of_runs (hD : Set.InjOn H.definition D)
    (h : Runs H (fun db call => call.Declares D ∧ call.Harmless db) db) : Coherent db := by
  have hall : Coherent db ∧ Linked db := by
    induction h with
    | empty =>
      exact ⟨fun k row hget => (by cases hget), fun i row hget => (by cases hget)⟩
    | call call hruns hmeets ih =>
      have hdescribed := described_of_runs hD (hruns.mono fun _ _ h => h.1)
      exact ⟨coherent_of_run hD hmeets.1 hmeets.2 hdescribed ih.1 ih.2, linked_of_run ih.2⟩
  exact hall.1

/-! ## Two agents of one app -/

/-- `acquire`, declared as pure. -/
def pureAcquire : ImplementationInput :=
  { declare "acquire" "acquire" with definition := { key := "acquire", name := "acquire", pure := true } }

/-- `acquire`, declared as physical. -/
def physicalAcquire : ImplementationInput :=
  { declare "acquire" "acquire" with effect := .physical }

/-- Two agents of one app may declare a definition as pure, where neither implements it
physically. -/
theorem pure_acquire_coherent :
    Coherent (runCalls naming {} [.createImplementation (bench 1) pureAcquire,
      .createImplementation (bench 2) pureAcquire]) := by
  have hD : Set.InjOn naming.definition {pureAcquire.definition.toIdentity} :=
    Set.injOn_singleton _ _
  have hdeclares : ∀ client,
      (Call.createImplementation (bench client) pureAcquire).Declares
        {pureAcquire.definition.toIdentity} := by
    intro client input hinput
    rw [List.mem_singleton.mp hinput]
    rfl
  have hharmless : ∀ {db : Database}, (db.implementations.select fun _ row =>
      decide (row.effect = .physical)) = [] →
        ∀ client, (Call.createImplementation (bench client) pureAcquire).Harmless db := by
    rintro db hnone client input _ _ ⟨i, implementation, row, hrow, _, hphysical, _⟩
    have hmem : (i, implementation) ∈ db.implementations.select fun _ row =>
        decide (row.effect = .physical) := Table.mem_select.mpr ⟨hrow, decide_eq_true hphysical⟩
    rw [hnone] at hmem
    cases hmem
  have hfirst : Runs naming (fun db call => call.Declares {pureAcquire.definition.toIdentity} ∧
      call.Harmless db) ((Call.createImplementation (bench 1) pureAcquire).run naming {}) :=
    .call _ .empty ⟨hdeclares 1, hharmless (by rfl) 1⟩
  exact coherent_of_runs hD (.call _ hfirst ⟨hdeclares 2, hharmless (by rfl) 2⟩)

/-- The first agent implements `acquire` physically. The second declares it as pure, which no
check of its own registration refuses. -/
theorem physical_acquire_becomes_pure :
    ¬Coherent (runCalls naming {} [.createImplementation (bench 1) physicalAcquire,
      .createImplementation (bench 2) pureAcquire]) := by
  intro h
  obtain ⟨_, _, hphysical⟩ := h 1 _ rfl rfl
  exact hphysical 1 _ rfl rfl rfl

end Registration
end Rekuest
