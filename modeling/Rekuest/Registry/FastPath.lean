import Rekuest.Registry.Total

/-!
# Rekuest.Registry.FastPath

Whether it can be seen that an unchanged definition is not written again.

* `createImplementationAnew`: a registration where the comparison of the hashes always reports a
  change.
* `Observed`: the row of an action, its ports, protocols and collections.
* `observed_iff`: the two leave the same, exactly where the stored kind and port groups are those
  that are declared. The hash covers neither.
-/

namespace Rekuest
namespace Registration

open Fallible
open Interleave (Table)

section

variable (H : Hashing) (db : Database) (agentId : AgentId) (agent : Agent)

/-- The hash branch, had the comparison reported a change. -/
def rewriteAction (definition : Definition) :
    Option (Instance Action) → Except Error (Database × Instance Action)
  | some action =>
    if action.row.app = agent.app then
      storeAction db ⟨action.pk,
        action.row.redefine (H.definition definition.toIdentity) definition⟩
    else .error (notTheOwner definition)
  | none => storeAction db ⟨none, agent.newAction (H.definition definition.toIdentity) definition⟩

def registerActionAnew (definition : Definition) (found : Option (Instance Action)) :
    Except Error (Database × Instance Action) := do
  let stored ← rewriteAction H db agent definition found
  let synced ← syncQualifiers stored.1 definition stored.2
  rebuild synced.1 agent definition synced.2

def createImplementationAnew (input : ImplementationInput) : Except Error Registered := do
  let _ ← checkQualifiers input
  let registered ← registerActionAnew H db agent input.definition
    (findAction db agent input.definition)
  installImplementation registered.1 agentId agent input registered.2
    (findImplementation db agentId input.interface)

end

structure Observed where
  row : Option Action
  argPorts : List PortRow
  returnPorts : List PortRow
  protocols : List String
  collections : Finset Nat

def observe (db : Database) (k : ActionId) : Observed where
  row := db.actions.get k
  argPorts := db.argPorts k
  returnPorts := db.returnPorts k
  protocols := db.protocols k
  collections := db.collectionsOf k

variable {H : Hashing} {D : Set Identity} {db db' : Database} {agentId : AgentId} {agent : Agent}
  {input : ImplementationInput} {definition : Definition} {found : Option (Instance Action)}
  {action : Instance Action} {current : Option ImplementationRef} {k : ActionId} {row : Action}

/-! ## The action written anew -/

/-- A definition that is new or has changed is written in either case. -/
theorem registerAction_changed
    (h : ∀ a, found = some a → a.row.hash ≠ H.definition definition.toIdentity) :
    registerAction H db agent definition found = registerActionAnew H db agent definition found := by
  cases found with
  | none =>
    simp only [registerAction, registerActionAnew, upsertAction, rewriteAction]
    cases storeAction db ⟨none, agent.newAction (H.definition definition.toIdentity) definition⟩ <;>
      rfl
  | some a =>
    simp only [registerAction, registerActionAnew, upsertAction, rewriteAction, if_neg (h a rfl)]
    by_cases happ : a.row.app = agent.app
    · rw [if_pos happ, if_pos happ]
      cases storeAction db ⟨a.pk,
        a.row.redefine (H.definition definition.toIdentity) definition⟩ <;> rfl
    · rw [if_neg happ, if_neg happ]
      rfl

/-- The row of an action written anew. -/
def rewritten (H : Hashing) (definition : Definition) (row : Action) : Action :=
  counted definition ((row.redefine (H.definition definition.toIdentity) definition).qualify
    definition)

/-- The save and the sync of an object that has its row. -/
theorem synced_of_stored {stored synced : Database × Instance Action}
    (h : Stored db action k stored)
    (hsynced : syncQualifiers stored.1 definition stored.2 = .ok synced) :
    synced.2 = ⟨some k, action.row.qualify definition⟩ ∧
      Settled db synced.1 k (action.row.qualify definition) ∧
      synced.1.collections = db.collections := by
  have hfits : Fits stored.1 stored.2 := by
    rw [h.object]
    exact h.settled.fits
  have hget : stored.1.actions.get k = some stored.2.row := by
    rw [h.object]
    exact h.get
  obtain ⟨hrow, hframe, _⟩ := syncQualifiers_ok hsynced hfits
  have hsettled := settled_of_synced hsynced hfits (by rw [h.object]) hget
  rw [h.object] at hrow hsettled
  exact ⟨hrow, h.settled.trans hsettled, by rw [hframe, h.frame]⟩

section

variable (hk : action.pk = some k) (hget : db.actions.get k = some action.row)

include hk hget

theorem stored_of_rewriteAction {stored : Database × Instance Action}
    (h : rewriteAction H db agent definition (some action) = .ok stored) :
    Stored db ⟨action.pk, action.row.redefine (H.definition definition.toIdentity) definition⟩ k
      stored := by
  simp only [rewriteAction] at h
  split at h
  · obtain ⟨j, hs⟩ := storeAction_ok h fun j hj => by
      have hjk : j = k := Option.some.inj (hj.symm.trans hk)
      rw [hjk]
      exact Table.lt_next hget
    have hkey := hs.key k hk
    subst hkey
    exact hs
  · cases h

theorem registerActionAnew_ok {r : Database × Instance Action}
    (h : registerActionAnew H db agent definition (some action) = .ok r) :
    r.2 = ⟨some k, rewritten H definition action.row⟩ ∧ Settled db r.1 k r.2.row ∧
      Rebuilt agent definition r.1 k := by
  obtain ⟨stored, hstored, h⟩ := bind_ok_iff.mp h
  obtain ⟨synced, hsynced, h⟩ := bind_ok_iff.mp h
  obtain ⟨hrow, hsettled, _⟩ := synced_of_stored (stored_of_rewriteAction hk hget hstored) hsynced
  rw [hrow] at h
  obtain ⟨j, hj, hobject, _, hrebuilt, hderived⟩ := rebuild_ok h hsettled.fits
  cases hj
  refine ⟨hobject, ?_, hderived⟩
  rw [hobject]
  exact hsettled.trans hrebuilt

theorem registerActionAnew_total (happ : action.row.app = agent.app) (hapart : Apart db action)
    (hnames : Table.UniqueOn Collection.name db.collections)
    (hcompiles : Compiles definition.toIdentity) :
    ∃ r, registerActionAnew H db agent definition (some action) = .ok r := by
  have hapart' : Apart db ⟨action.pk,
      action.row.redefine (H.definition definition.toIdentity) definition⟩ := hapart
  obtain ⟨stored, hstored⟩ := storeAction_total hapart'
  have hanew : rewriteAction H db agent definition (some action) = .ok stored := by
    rw [rewriteAction, if_pos happ]
    exact hstored
  have hs := stored_of_rewriteAction hk hget hanew
  obtain ⟨synced, hsynced⟩ := @syncQualifiers_total stored.1 definition stored.2 k _
    (by rw [hs.object]) hs.get
  obtain ⟨hrow, hsettled, hcollections⟩ := synced_of_stored hs hsynced
  have hapart₁ : Apart synced.1 synced.2 := by
    intro j row hj hrowj
    rw [hrow] at hj ⊢
    have hjk : j ≠ k := fun hjk => hj (by rw [hjk])
    have hsame : synced.1.actions.get j = db.actions.get j :=
      (congrArg ActionView.row (hsettled.others j hjk) :)
    rw [hsame] at hrowj
    exact hapart j row (by rw [hk]; exact hj) hrowj
  obtain ⟨r, hr⟩ := @rebuild_total synced.1 agent definition synced.2 k _ (by rw [hrow])
    hsettled.get hapart₁ (by rw [hcollections]; exact hnames) hcompiles
  exact ⟨r, bind_ok_iff.mpr ⟨stored, hanew, bind_ok_iff.mpr ⟨synced, hsynced, hr⟩⟩⟩

end

/-! ## The two compared -/

/-- The row, written anew, differs in what the hash is not of. -/
theorem rewritten_eq {d : Identity} (h : DescribedAs H db k row d)
    (hd : definition.toIdentity = d) :
    rewritten H definition row =
      { row.qualify definition with
        kind := definition.kind
        portGroups := definition.portGroups } := by
  subst hd
  exact congrArg (fun row => Action.qualify row definition) (h.columns definition rfl)

/-- The two actions, where the definition has the stored hash. -/
theorem observe_registerAction {r r' : Database × Instance Action} (hD : Set.InjOn H.definition D)
    (hd : definition.toIdentity ∈ D) (hdb : Described H D db) (hk : action.pk = some k)
    (hget : db.actions.get k = some action.row)
    (hhash : action.row.hash = H.definition definition.toIdentity)
    (h : registerAction H db agent definition (some action) = .ok r)
    (h' : registerActionAnew H db agent definition (some action) = .ok r') :
    observe r'.1 k = { observe r.1 k with row := some (rewritten H definition action.row) } ∧
      (observe r.1 k).row = some (action.row.qualify definition) ∧
      r.2 = ⟨some k, action.row.qualify definition⟩ ∧
      r'.2 = ⟨some k, rewritten H definition action.row⟩ ∧
      clearActions r'.1 = clearActions r.1 := by
  obtain ⟨d, hdD, hdescribed⟩ := hdb.described k action.row hget
  have hsame : d = definition.toIdentity := hD hdD hd (hdescribed.hash.symm.trans hhash)
  subst hsame
  obtain ⟨hobject', hsettled', hrebuilt'⟩ := registerActionAnew_ok hk hget h'
  have hfits : ∀ a, some action = some a → Fits db a := by
    intro a ha
    cases ha
    intro j hj
    have hjk : j = k := Option.some.inj (hj.symm.trans hk)
    rw [hjk]
    refine ⟨Table.lt_next hget, fun row hrow => ?_⟩
    rw [hget] at hrow
    exact (Option.some.inj hrow).symm
  -- in either case the row, and what is derived from it, is as the definition has it
  have hfast : r.2 = ⟨some k, action.row.qualify definition⟩ ∧
      Settled db r.1 k (action.row.qualify definition) ∧ Derived r.1 k definition.toIdentity := by
    rcases registerAction_ok h hfits with ⟨j, hj⟩ | ⟨j, row, hj⟩ | hstale
    · have hjk := hj.key action k rfl hk
      subst hjk
      have hupserted : upserted H agent definition (some action) = action.row := if_pos hhash
      have hobject := hj.object
      rw [hupserted, (hdescribed.qualify definition).counted rfl] at hobject
      have hsettled := hj.settled
      rw [hobject] at hsettled
      exact ⟨hobject, hsettled, hj.rebuilt.derived⟩
    · have haction := Option.some.inj hj.found
      rw [haction] at hk
      cases hk
      have hsettled := hj.settled
      rw [hj.object] at hsettled
      rw [haction]
      refine ⟨hj.object, hsettled, ?_⟩
      rw [hj.frame]
      exact ⟨hdescribed.args, hdescribed.returns, hdescribed.protocols, hdescribed.collections⟩
    · have haction := Option.some.inj hstale.found
      rw [haction] at hget hk
      have hgone := hstale.gone k hk
      rw [hget] at hgone
      cases hgone
  obtain ⟨hobject, hsettled, hderived⟩ := hfast
  obtain ⟨hargs, hreturns, hprotocols, hcollections⟩ :=
    Derived.unique hdb.names hsettled.collections hdescribed.toDerived hderived
  obtain ⟨hargs', hreturns', hprotocols', hcollections'⟩ :=
    Derived.unique hdb.names hsettled'.collections hdescribed.toDerived hrebuilt'.derived
  refine ⟨?_, hsettled.get, hobject, hobject', hsettled'.frame.trans hsettled.frame.symm⟩
  have hget' := hsettled'.get
  rw [hobject'] at hget'
  simp only [observe, hget', hargs', hreturns', hprotocols', hcollections', hargs, hreturns,
    hprotocols, hcollections]

/-- The implementation does not change what is seen of the action. -/
theorem observe_installImplementation {r : Registered}
    (h : installImplementation db agentId agent input action current = .ok r)
    (hcurrent : ∀ ref, current = some ref → ref.1 < db.implementations.next)
    (hk : action.pk = some k) : observe r.db k = observe db k := by
  obtain ⟨_, j, db', hj, hdropped, hinstalled⟩ := installImplementation_ok h hcurrent
  rw [hk] at hj
  cases hj
  have hkept : r.dropped ≠ some k := by
    intro hdrop
    obtain ⟨_, _, _, hne, _⟩ := hdropped.only hdrop
    exact hne rfl
  have hview := ((implementationFrame hinstalled.frame).view k).trans (hdropped.view hkept)
  exact congrArg (fun v : ActionView =>
    (⟨v.row, v.argPorts, v.returnPorts, v.protocols, v.collections⟩ : Observed)) hview

/-- What is seen of an action does not tell whether it was written anew, exactly where the stored
kind and port groups of an unchanged definition are those that are declared. -/
theorem observed_iff (hD : Set.InjOn H.definition D)
    (hruns : Runs H (fun _ call => call.Declares D) db) (hd : input.definition.toIdentity ∈ D)
    {r : Registered} (h : createImplementation H db agentId agent input = .ok r) :
    ∃ r' k, createImplementationAnew H db agentId agent input = .ok r' ∧
      r.action.pk = some k ∧ r'.action.pk = some k ∧
      (observe r.db k = observe r'.db k ↔
        ∀ action, findAction db agent input.definition = some action →
          action.row.hash = H.definition input.definition.toIdentity →
          action.row.kind = input.definition.kind ∧
            action.row.portGroups = input.definition.portGroups) := by
  have hdb := described_of_runs hD hruns
  by_cases hfast : ∃ action, findAction db agent input.definition = some action ∧
      action.row.hash = H.definition input.definition.toIdentity
  · obtain ⟨action, hfound, hhash⟩ := hfast
    obtain ⟨k, hk, hget, hcoordinate⟩ := findAction_eq_some hfound
    obtain ⟨d, hdD, hdescribed⟩ := hdb.described k action.row hget
    have hsame : d = input.definition.toIdentity :=
      hD hdD hd (hdescribed.hash.symm.trans hhash)
    subst hsame
    obtain ⟨checked, hchecked, h⟩ := bind_ok_iff.mp h
    obtain ⟨fast, hfastok, h⟩ := bind_ok_iff.mp h
    rw [hfound] at hfastok
    have happ : action.row.app = agent.app := by
      simp only [Action.coordinate, Prod.mk.injEq] at hcoordinate
      exact hcoordinate.2.1
    have hapart : Apart db action := by
      intro j row hj hrow hsame
      exact hj (by rw [hk, hdb.coordinates j k row action.row hrow hget hsame])
    obtain ⟨anew, hanew⟩ := @registerActionAnew_total H db agent input.definition action k hk hget
      happ hapart hdb.names ⟨⟨_, hdescribed.args⟩, _, hdescribed.returns⟩
    obtain ⟨hobserve, hrow, hobject, hobject', hclear⟩ :=
      observe_registerAction hD hd hdb hk hget hhash hfastok hanew
    have hcolumns := rewritten_eq hdescribed rfl
    have hpk : anew.2.pk = fast.2.pk := by rw [hobject, hobject']
    have hargs : anew.2.row.args = fast.2.row.args := by rw [hobject, hobject', hcolumns]
    have hreturns : anew.2.row.returns = fast.2.row.returns := by rw [hobject, hobject', hcolumns]
    obtain ⟨r', hr', _, _⟩ := installImplementation_transfer hclear hpk hargs hreturns h
    have hcurrent : ∀ ref, findImplementation db agentId input.interface = some ref →
        ref.1 < fast.1.implementations.next := by
      intro ref href
      have hframe := registerAction_frame hfastok fun a ha => findAction_fits (hfound.trans ha)
      rw [(actionFrame hframe).implementations]
      exact Table.lt_next (findImplementation_eq_some href).1
    have hcurrent' : ∀ ref, findImplementation db agentId input.interface = some ref →
        ref.1 < anew.1.implementations.next := by
      rw [(actionFrame hclear).implementations]
      exact hcurrent
    have hseen := observe_installImplementation h hcurrent (by rw [hobject])
    have hseen' := observe_installImplementation hr' hcurrent' (by rw [hobject'])
    obtain ⟨haction, _⟩ := installImplementation_ok h hcurrent
    obtain ⟨haction', _⟩ := installImplementation_ok hr' hcurrent'
    refine ⟨r', k, bind_ok_iff.mpr ⟨checked, hchecked, bind_ok_iff.mpr ⟨anew, ?_, hr'⟩⟩,
      by rw [haction, hobject], by rw [haction', hobject'], ?_⟩
    · rw [hfound]
      exact hanew
    · rw [hseen, hseen', hobserve]
      constructor
      · intro heq action' hfound' _
        rw [hfound] at hfound'
        cases hfound'
        have hrows := congrArg Observed.row heq
        rw [hrow, Option.some.injEq, hcolumns] at hrows
        exact ⟨congrArg Action.kind hrows, congrArg Action.portGroups hrows⟩
      · intro hcond
        obtain ⟨hkind, hgroups⟩ := hcond action hfound hhash
        have hrows : rewritten H input.definition action.row =
            action.row.qualify input.definition := by
          rw [hcolumns, ← hkind, ← hgroups]
          rfl
        rw [hrows, ← hrow]
  · have hchanged : ∀ a, findAction db agent input.definition = some a →
        a.row.hash ≠ H.definition input.definition.toIdentity :=
      fun a ha hhash => hfast ⟨a, ha, hhash⟩
    obtain ⟨_, _, hk, _⟩ := createImplementation_ok h
    refine ⟨r, _, ?_, hk, hk, fun _ a ha hhash => absurd hhash (hchanged a ha), fun _ => rfl⟩
    rw [createImplementationAnew, ← registerAction_changed hchanged]
    exact h

/-! ## A definition that becomes a generator -/

/-- `acquire` is registered. -/
def acquireRegistered : Database :=
  (Call.createImplementation (bench 1) (declare "acquire" "acquire")).run naming {}

/-- `acquire`, declared as a generator. -/
def generatorAcquire : ImplementationInput :=
  { declare "acquire" "acquire" with
    definition := { key := "acquire", name := "acquire", kind := .generator } }

/-- The same declaration once more. -/
theorem same_acquire_observed :
    ∃ r r' k, createImplementation naming acquireRegistered 1 microscope
        (declare "acquire" "acquire") = .ok r ∧
      createImplementationAnew naming acquireRegistered 1 microscope
        (declare "acquire" "acquire") = .ok r' ∧
      r.action.pk = some k ∧ observe r.db k = observe r'.db k := by
  have hD : Set.InjOn naming.definition {(declare "acquire" "acquire").definition.toIdentity} :=
    Set.injOn_singleton _ _
  have hruns : Runs naming (fun _ call => call.Declares
      {(declare "acquire" "acquire").definition.toIdentity}) acquireRegistered := by
    refine .call _ .empty fun input hinput => ?_
    rw [List.mem_singleton.mp hinput]
    rfl
  obtain ⟨r, hr⟩ : ∃ r, createImplementation naming acquireRegistered 1 microscope
      (declare "acquire" "acquire") = .ok r := ⟨_, rfl⟩
  obtain ⟨r', k, hr', hk, _, hiff⟩ := observed_iff hD hruns rfl hr
  refine ⟨r, r', k, hr, hr', hk, hiff.mpr fun action haction _ => ?_⟩
  cases haction
  exact ⟨rfl, rfl⟩

/-- The kind is not part of what is hashed: the stored action stays a function. -/
theorem generator_acquire_stays_function :
    ∃ r r', createImplementation naming acquireRegistered 1 microscope generatorAcquire = .ok r ∧
      createImplementationAnew naming acquireRegistered 1 microscope generatorAcquire = .ok r' ∧
      (r.db.actions.get 1).map Action.kind = some .function ∧
      (r'.db.actions.get 1).map Action.kind = some .generator ∧
      observe r.db 1 ≠ observe r'.db 1 := by
  refine ⟨_, _, rfl, rfl, rfl, rfl, fun h => ?_⟩
  have hkind := congrArg (fun seen : Observed => seen.row.map Action.kind) h
  cases hkind

end Registration
end Rekuest
