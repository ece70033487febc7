import Rekuest.Registry.Runs

/-!
# Rekuest.Registry.Described

What is stored of an action is what its hash is of.

* `DescribedAs`: the columns of an action, its ports, protocols and collections are those of a
  definition with the hash. `Described`: all actions are, of definitions that were declared.
* `Runs`: histories of calls, each of which meets a condition where it is made.
* `described_of_runs`: histories keep it, if no two declared definitions share a hash.
-/

namespace Rekuest
namespace Registration

open Fallible
open Interleave (Table)

/-- The ports, protocols and collections of the action `k` are those of `d`. -/
structure Derived (db : Database) (k : ActionId) (d : Identity) : Prop where
  args : Ports.bulkCreatePorts compiler d.args = .ok (db.argPorts k)
  returns : Ports.bulkCreatePorts compiler d.returns = .ok (db.returnPorts k)
  protocols : db.protocols k = Ports.inferProtocols d
  collections : ∃ ids, Named db.collections d.collections ids ∧ db.collectionsOf k = ids.toFinset

/-- Whatever of the action `k` comes from its definition comes from `d`: to write it once more
would change what the hash is not of. -/
structure DescribedAs (H : Hashing) (db : Database) (k : ActionId) (row : Action) (d : Identity) :
    Prop extends Derived db k d where
  columns : ∀ definition : Definition, definition.toIdentity = d →
    counted definition (row.redefine (H.definition d) definition) =
      { row with kind := definition.kind, portGroups := definition.portGroups }

/-- Every action is as one of the definitions has it, and no two are alike. -/
structure Described (H : Hashing) (D : Set Identity) (db : Database) : Prop where
  described : ∀ k row, db.actions.get k = some row → ∃ d ∈ D, DescribedAs H db k row d
  coordinates : Table.UniqueOn Action.coordinate db.actions
  names : Table.UniqueOn Collection.name db.collections

variable {H : Hashing} {D : Set Identity} {db db' db₁ : Database} {agentId : AgentId}
  {agent : Agent} {input : ImplementationInput} {found : Option (Instance Action)}
  {current : Option ImplementationRef} {k : ActionId} {row : Action} {d : Identity}
  {r : Registered}

theorem DescribedAs.hash (h : DescribedAs H db k row d) : row.hash = H.definition d :=
  (congrArg Action.hash (h.columns { toIdentity := d } rfl)).symm

theorem DescribedAs.stateful (h : DescribedAs H db k row d) : row.stateful = d.stateful :=
  (congrArg Action.stateful (h.columns { toIdentity := d } rfl)).symm

/-- The counts are those of the ports. -/
theorem DescribedAs.counted (h : DescribedAs H db k row d) {definition : Definition}
    (hd : definition.toIdentity = d) : Registration.counted definition row = row := by
  have hargs : definition.args.length = row.argCount :=
    (congrArg Action.argCount (h.columns definition hd) :)
  have hreturns : definition.returns.length = row.returnCount :=
    (congrArg Action.returnCount (h.columns definition hd) :)
  rw [Registration.counted, hargs, hreturns]

/-- The qualifiers do not matter. -/
theorem DescribedAs.qualify (h : DescribedAs H db k row d) (definition : Definition) :
    DescribedAs H db k (row.qualify definition) d where
  toDerived := h.toDerived
  columns definition' hd := congrArg (fun row => Action.qualify row definition)
    (h.columns definition' hd)

/-- Only what is stored of the action matters. -/
theorem Derived.congr (h : Derived db k d)
    (hview : ∃ dropped, view db' k = (view db k).unlink dropped)
    (hgrow : CollectionsGrow db.collections db'.collections) : Derived db' k d := by
  obtain ⟨dropped, hview⟩ := hview
  have hargs : db'.argPorts k = db.argPorts k := (congrArg ActionView.argPorts hview :)
  have hreturns : db'.returnPorts k = db.returnPorts k :=
    (congrArg ActionView.returnPorts hview :)
  have hprotocols : db'.protocols k = db.protocols k := (congrArg ActionView.protocols hview :)
  have hcollections : db'.collectionsOf k = db.collectionsOf k :=
    (congrArg ActionView.collections hview :)
  obtain ⟨ids, hids, hof⟩ := h.collections
  exact {
    args := by rw [hargs, h.args]
    returns := by rw [hreturns, h.returns]
    protocols := by rw [hprotocols, h.protocols]
    collections := ⟨ids, hids.grow hgrow, by rw [hcollections, hof]⟩ }

theorem DescribedAs.congr (h : DescribedAs H db k row d)
    (hview : ∃ dropped, view db' k = (view db k).unlink dropped)
    (hgrow : CollectionsGrow db.collections db'.collections) : DescribedAs H db' k row d :=
  ⟨h.toDerived.congr hview hgrow, h.columns⟩

theorem Rebuilt.derived {definition : Definition} (h : Rebuilt agent definition db k) :
    Derived db k definition.toIdentity :=
  ⟨h.args, h.returns, h.protocols, h.collections⟩

theorem Named.unique {t : Table Collection} {names : List String} {ids ids' : List Nat}
    (hunique : Table.UniqueOn Collection.name t) (h : Named t names ids)
    (h' : Named t names ids') : ids = ids' := by
  induction h generalizing ids' with
  | nil =>
    cases h'
    rfl
  | cons hrow _ ih =>
    cases h' with
    | cons hrow' hrest =>
      obtain ⟨row, hget, hname⟩ := hrow
      obtain ⟨row', hget', hname'⟩ := hrow'
      rw [hunique _ _ row row' hget hget' (hname.trans hname'.symm), ih hrest]

/-- A definition leaves no choice. -/
theorem Derived.unique (hnames : Table.UniqueOn Collection.name db.collections)
    (hgrow : CollectionsGrow db.collections db'.collections) (h : Derived db k d)
    (h' : Derived db' k d) : db'.argPorts k = db.argPorts k ∧
      db'.returnPorts k = db.returnPorts k ∧ db'.protocols k = db.protocols k ∧
      db'.collectionsOf k = db.collectionsOf k := by
  obtain ⟨ids, hids, hof⟩ := h.collections
  obtain ⟨ids', hids', hof'⟩ := h'.collections
  have hsame := (hids.grow hgrow).unique (hgrow.unique hnames) hids'
  refine ⟨?_, ?_, ?_, ?_⟩
  · exact Except.ok.inj (h'.args.symm.trans h.args)
  · exact Except.ok.inj (h'.returns.symm.trans h.returns)
  · rw [h'.protocols, h.protocols]
  · rw [hof, hof', hsame]

theorem redefine_columns (row : Action) (definition : Definition) :
    ∀ definition' : Definition, definition'.toIdentity = definition.toIdentity →
      counted definition' ((counted definition ((row.redefine (H.definition definition.toIdentity)
        definition).qualify definition)).redefine (H.definition definition.toIdentity)
          definition') =
      { counted definition ((row.redefine (H.definition definition.toIdentity)
          definition).qualify definition) with
        kind := definition'.kind
        portGroups := definition'.portGroups } := by
  intro definition' hd
  obtain ⟨d', _, _, _, _, _⟩ := definition'
  dsimp only at hd
  subst hd
  rfl

/-- The action that a registration wrote is as its definition has it. -/
theorem describedAs_rewritten {r : Database × Instance Action} (hD : Set.InjOn H.definition D)
    (hd : input.definition.toIdentity ∈ D) (h : Described H D db)
    (hr : Rewritten H db agent input.definition found r k) :
    DescribedAs H r.1 k r.2.row input.definition.toIdentity where
  columns := by
    rw [hr.object]
    cases hfound : found with
    | none => exact redefine_columns _ _
    | some a =>
      by_cases hhash : a.row.hash = H.definition input.definition.toIdentity
      · have hrow : upserted H agent input.definition (some a) = a.row := if_pos hhash
        obtain ⟨d, hdD, hdescribed⟩ := h.described k a.row (hr.present a hfound hhash)
        have hsame : d = input.definition.toIdentity :=
          hD hdD hd (hdescribed.hash.symm.trans hhash)
        subst hsame
        have hqualified := hdescribed.qualify input.definition
        rw [hrow, hqualified.counted rfl]
        exact hqualified.columns
      · have hrow : upserted H agent input.definition (some a) =
            a.row.redefine (H.definition input.definition.toIdentity) input.definition :=
          if_neg hhash
        rw [hrow]
        exact redefine_columns _ _
  toDerived := hr.rebuilt.derived

/-- The action that a registration left as it was is as its definition has it. -/
theorem describedAs_kept {r : Database × Instance Action} (hD : Set.InjOn H.definition D)
    (hd : input.definition.toIdentity ∈ D) (h : Described H D db)
    (hr : Kept H db input.definition found r k row) :
    DescribedAs H r.1 k r.2.row input.definition.toIdentity := by
  obtain ⟨d, hdD, hdescribed⟩ := h.described k row hr.get
  have hsame : d = input.definition.toIdentity := hD hdD hd (hdescribed.hash.symm.trans hr.hash)
  subst hsame
  rw [hr.object]
  have hqualified := hdescribed.qualify input.definition
  rw [hr.frame]
  exact ⟨⟨hqualified.args, hqualified.returns, hqualified.protocols, hqualified.collections⟩,
    hqualified.columns⟩

/-- The row of the action, if it is there in the end. -/
theorem Turned.own_row (h : Turned H db agentId agent input found current r k db₁)
    (hget : r.db.actions.get k = some row) :
    row = r.action.row ∧ db₁.actions.get k = some r.action.row ∧
      (Rewritten H db agent input.definition found (db₁, r.action) k ∨
        ∃ before, Kept H db input.definition found (db₁, r.action) k before) := by
  have hrow := (h.fits k h.pk).2 row hget
  have hview : r.db.actions.get k = db₁.actions.get k := (congrArg ActionView.row h.own :)
  rw [hview, hrow] at hget
  refine ⟨hrow, hget, ?_⟩
  cases h.acted with
  | rewritten h => exact .inl h
  | kept before h => exact .inr ⟨before, h⟩
  | stale hstale =>
    have hgone := hstale.gone k h.pk
    rw [← hstale.unchanged, hget] at hgone
    cases hgone

/-- The row of another action is the one it had. -/
theorem Turned.other_row (h : Turned H db agentId agent input found current r k db₁)
    {j : ActionId} (hj : j ≠ k) (hget : r.db.actions.get j = some row) :
    db.actions.get j = some row ∧ view r.db j = (view db j).unlink r.dropped := by
  have hdrop : r.dropped ≠ some j := by
    intro hdrop
    rw [(h.gone j hdrop).2.1] at hget
    cases hget
  have hview := h.others j hj hdrop
  have hrow : r.db.actions.get j = db.actions.get j := (congrArg ActionView.row hview :)
  exact ⟨hrow.symm.trans hget, hview⟩

theorem coordinates_of_turned (h : Turned H db agentId agent input found current r k db₁)
    (hunique : Table.UniqueOn Action.coordinate db.actions)
    (hothers : ∀ j, j ≠ k → view db₁ j = view db j) :
    Table.UniqueOn Action.coordinate r.db.actions := by
  -- another action never has the coordinate of the one that was registered
  have hown : ∀ j row own, j ≠ k → r.db.actions.get j = some row →
      r.db.actions.get k = some own → row.coordinate ≠ own.coordinate := by
    intro j row own hj hrow hget
    obtain ⟨hown, hget₁, hacted⟩ := h.own_row hget
    obtain ⟨hbefore, _⟩ := h.other_row hj hrow
    rcases hacted with hwritten | ⟨before, hkept⟩
    · have hsame : db₁.actions.get j = db.actions.get j :=
        (congrArg ActionView.row (hothers j hj) :)
      rw [hown]
      exact hwritten.rebuilt.unique j row r.action.row hj (hsame.trans hbefore) hget₁
    · intro hsame
      have hobject : r.action = ⟨some k, before.qualify input.definition⟩ := hkept.object
      refine hj (hunique j k row before hbefore hkept.get ?_)
      rw [hsame, hown, hobject]
      rfl
  intro i j a b hi hj hsame
  by_cases hik : i = k
  · by_cases hjk : j = k
    · rw [hik, hjk]
    · rw [hik] at hi
      exact absurd hsame.symm (hown j b a hjk hj hi)
  · by_cases hjk : j = k
    · rw [hjk] at hj
      exact absurd hsame (hown i a b hik hi hj)
    · exact hunique i j a b (h.other_row hik hi).1 (h.other_row hjk hj).1 hsame

theorem described_of_turned (hD : Set.InjOn H.definition D)
    (hd : input.definition.toIdentity ∈ D)
    (hlook : Looked db agentId agent input found current)
    (h : Turned H db agentId agent input found current r k db₁) (hdb : Described H D db) :
    Described H D r.db where
  described j row hget := by
    by_cases hj : j = k
    · subst hj
      obtain ⟨hrow, hget₁, hacted⟩ := h.own_row hget
      have hgrow : CollectionsGrow db₁.collections r.db.collections := by
        rw [h.collected]
        exact .refl
      rw [hrow]
      refine ⟨input.definition.toIdentity, hd, ?_⟩
      rcases hacted with hwritten | ⟨before, hkept⟩
      · exact (describedAs_rewritten hD hd hdb hwritten).congr ⟨_, h.own⟩ hgrow
      · exact (describedAs_kept hD hd hdb hkept).congr ⟨_, h.own⟩ hgrow
    · obtain ⟨hbefore, hview⟩ := h.other_row hj hget
      obtain ⟨d, hdD, hdescribed⟩ := hdb.described j row hbefore
      exact ⟨d, hdD, hdescribed.congr ⟨_, hview⟩ h.collections⟩
  coordinates := by
    obtain ⟨_, _, _, _, _, _, _, hothers⟩ := h.acted.facts hlook h.pk
    exact coordinates_of_turned h hdb.coordinates hothers
  names := h.collections.unique hdb.names

/-! ## Histories -/

namespace Call

def requester : Call → Requester
  | .implementAgent requester _ _ => requester
  | .createImplementation requester _ => requester

/-- What a call declares. -/
def inputs : Call → List ImplementationInput
  | .implementAgent _ input _ => input.implementations
  | .createImplementation _ input => [input]

/-- All declared definitions are among these. -/
def Declares (D : Set Identity) (call : Call) : Prop :=
  ∀ input ∈ call.inputs, input.definition.toIdentity ∈ D

end Call

/-- The databases that calls lead to, each of which meets the condition where it is made. -/
inductive Runs (H : Hashing) (meets : Database → Call → Prop) : Database → Prop where
  | empty : Runs H meets {}
  | call {db : Database} (call : Call) : Runs H meets db → meets db call →
      Runs H meets (call.run H db)

theorem Runs.mono {meets meets' : Database → Call → Prop} (h : Runs H meets db)
    (himp : ∀ db call, meets db call → meets' db call) : Runs H meets' db := by
  induction h with
  | empty => exact .empty
  | call call _ hmeets ih => exact .call call ih (himp _ _ hmeets)

theorem described_of_sameRegistry (h : SameRegistry db db') (hdb : Described H D db) :
    Described H D db' where
  described k row hget := by
    rw [h.actions] at hget
    obtain ⟨d, hdD, hdescribed⟩ := hdb.described k row hget
    refine ⟨d, hdD, hdescribed.congr ⟨none, ?_⟩ ?_⟩
    · rw [h.view, unlink_none]
    · rw [h.collections]
      exact .refl
  coordinates := by
    rw [h.actions]
    exact hdb.coordinates
  names := by
    rw [h.collections]
    exact hdb.names

theorem described_of_reaped {kept : List ImplementationId} (h : Reaped db agentId kept db')
    (hdb : Described H D db) : Described H D db' where
  described k row hget := by
    rw [h.actions] at hget
    obtain ⟨d, hdD, hdescribed⟩ := hdb.described k row hget
    refine ⟨d, hdD, hdescribed.congr ⟨none, ?_⟩ ?_⟩
    · rw [h.view, unlink_none]
    · rw [h.collections]
      exact .refl
  coordinates := by
    rw [h.actions]
    exact hdb.coordinates
  names := by
    rw [h.collections]
    exact hdb.names

theorem described_of_run (hD : Set.InjOn H.definition D) {call : Call} (hcall : call.Declares D)
    (hdb : Described H D db) : Described H D (call.run H db) := by
  cases call with
  | implementAgent requester input uuid =>
    rw [Call.run]
    split
    · rename_i r hr
      obtain ⟨begun, batch, db₁, db₂, hcalled⟩ := implementAgent_ok hr
      have hbegun := beginAgent_ok hcalled.begins
      have hbatch : Described H D batch.db := registerBatch_invariant
        (fun input hinput _ _ _ _ _ _ _ hlook hturned hdb =>
          described_of_turned hD (hcall input hinput) hlook hturned hdb)
        (described_of_sameRegistry hbegun.registry hdb) hcalled.registered
      exact described_of_sameRegistry hcalled.bloks (described_of_reaped hcalled.reaped
        (described_of_sameRegistry hcalled.states hbatch))
    · exact hdb
  | createImplementation requester input =>
    rw [Call.run]
    split
    · rename_i r hr
      obtain ⟨agent, agentId, db₀, _, _, _, hbefore, hcreate⟩ := createImplementationFor_ok hr
      obtain ⟨k, db₁, hturned⟩ := turned_of_register hcreate looked_createImplementation
      exact described_of_turned hD (hcall input (List.mem_singleton.mpr rfl))
        looked_createImplementation hturned (described_of_sameRegistry hbefore hdb)
    · exact described_of_sameRegistry upsertAgent_registry hdb

/-- In every database that calls lead to, what is stored of an action is what its hash is of. -/
theorem described_of_runs (hD : Set.InjOn H.definition D)
    (h : Runs H (fun _ call => call.Declares D) db) : Described H D db := by
  induction h with
  | empty => exact ⟨fun k row hget => (by cases hget), .empty, .empty⟩
  | call call _ hcall ih => exact described_of_run hD hcall ih

/-- The clients of an app, by number. -/
def bench (client : Nat) : Requester where
  client := ⟨client, "microscope"⟩
  user := ⟨1, "user"⟩
  organization := ⟨1, "org"⟩
  app := "mikro"
  release := "1.0"

end Registration
end Rekuest
