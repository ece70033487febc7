import Rekuest.Registry.Described

/-!
# Rekuest.Registry.Total

When the parts of a registration succeed.

* `storeAction_total`, `rebuild_total`: where no other action has the coordinate, no two
  collections have one name, and the descriptors of the ports compile.
* `installImplementation_transfer`: the implementation does not depend on what is stored of the
  actions.
-/

namespace Rekuest
namespace Registration

open Fallible
open Interleave (Table)

variable {H : Hashing} {db db' : Database} {agentId : AgentId} {agent : Agent}
  {definition : Definition} {action : Instance Action} {k : ActionId}

/-! ## The action -/

/-- No other action has the coordinate of the object. -/
def Apart (db : Database) (action : Instance Action) : Prop :=
  ∀ j row, some j ≠ action.pk → db.actions.get j = some row →
    row.coordinate ≠ action.row.coordinate

theorem storeAction_total (h : Apart db action) : ∃ r, storeAction db action = .ok r := by
  unfold storeAction
  have hempty : (db.actions.select fun k row =>
      some k ≠ action.pk && row.coordinate = action.row.coordinate).isEmpty = true := by
    refine List.isEmpty_iff.mpr (List.eq_nil_iff_forall_not_mem.mpr fun row hrow => ?_)
    obtain ⟨hget, hmeets⟩ := Table.mem_select.mp hrow
    rw [Bool.and_eq_true, decide_eq_true_eq, decide_eq_true_eq] at hmeets
    exact h row.1 row.2 hmeets.1 hget hmeets.2
  rw [if_pos hempty]
  cases action.pk <;> exact ⟨_, rfl⟩

theorem updateAction_total {row : Action} {update : Action → Action}
    (hget : db.actions.get k = some row) :
    updateAction db (some k) update = .ok { db with actions := db.actions.modify k update } := by
  have hthere : orRaise (Error.databaseError "Save with update_fields did not affect any rows.")
      (db.actions.get k) = .ok row := orRaise_ok_iff.mpr hget
  exact bind_ok_iff.mpr ⟨k, rfl, bind_ok_iff.mpr ⟨row, hthere, rfl⟩⟩

theorem getOrCreateCollections_total (hnames : Table.UniqueOn Collection.name db.collections)
    (names : List String) : ∃ r, getOrCreateCollections db agent names = .ok r := by
  induction names generalizing db with
  | nil => exact ⟨_, rfl⟩
  | cons name names ih =>
    obtain ⟨t, key, hstored⟩ : ∃ t key, db.collections.updateOrCreate
        (Error.multipleObjectsReturned "Collection") (fun row => decide (row.name = name))
        ⟨name, agent.user, agent.organization⟩ id = .ok (t, key) :=
      Table.updateOrCreate_total fun i j a b hi hj ha hb => hnames i j a b hi hj (by
        rw [of_decide_eq_true ha, of_decide_eq_true hb])
    have hunique : Table.UniqueOn Collection.name t :=
      hnames.updateOrCreate (by simp) (fun a b ha hab => by simpa [hab] using ha)
        (fun _ _ => rfl) hstored
    obtain ⟨rest, hrest⟩ := @ih { db with collections := t } hunique
    exact ⟨_, bind_ok_iff.mpr ⟨_, hstored, bind_ok_iff.mpr ⟨rest, hrest, rfl⟩⟩⟩

theorem syncQualifiers_total {row : Action} (hk : action.pk = some k)
    (hget : db.actions.get k = some row) : ∃ r, syncQualifiers db definition action = .ok r := by
  unfold syncQualifiers
  split
  · exact ⟨_, rfl⟩
  · rw [hk]
    exact ⟨_, bind_ok_iff.mpr ⟨_, updateAction_total hget, rfl⟩⟩

/-- The descriptors of the ports compile. -/
def Compiles (definition : Identity) : Prop :=
  (∃ rows, Ports.bulkCreatePorts compiler definition.args = .ok rows) ∧
    ∃ rows, Ports.bulkCreatePorts compiler definition.returns = .ok rows

theorem rebuild_total {row : Action} (hk : action.pk = some k)
    (hget : db.actions.get k = some row) (hapart : Apart db action)
    (hnames : Table.UniqueOn Collection.name db.collections)
    (hcompiles : Compiles definition.toIdentity) :
    ∃ r, rebuild db agent definition action = .ok r := by
  obtain ⟨⟨args, hargs⟩, returns, hreturns⟩ := hcompiles
  have hbuilt : rebuildRelationalPorts db definition action = .ok
      ({ db with
        argPorts := Function.update db.argPorts k args
        returnPorts := Function.update db.returnPorts k returns
        actions := db.actions.modify k (counted definition) },
        ⟨some k, counted definition action.row⟩) := by
    rw [rebuildRelationalPorts, hk]
    refine bind_ok_iff.mpr ⟨k, rfl, bind_ok_iff.mpr ⟨args, hargs, bind_ok_iff.mpr
      ⟨returns, hreturns, bind_ok_iff.mpr ⟨_, updateAction_total hget, rfl⟩⟩⟩⟩
  obtain ⟨collected, hcollected⟩ := @getOrCreateCollections_total { db with
    argPorts := Function.update db.argPorts k args
    returnPorts := Function.update db.returnPorts k returns
    actions := db.actions.modify k (counted definition) } agent hnames definition.collections
  obtain ⟨hframe, _, _⟩ := getOrCreateCollections_ok hcollected
  have hstore : ∀ db' : Database, db'.actions = db.actions.modify k (counted definition) →
      ∃ r, storeAction db' ⟨some k, counted definition action.row⟩ = .ok r := by
    intro db' hactions
    refine storeAction_total fun j row' hj hget' => ?_
    rw [hactions, Table.get_modify_of_ne fun hjk => hj (by rw [hjk])] at hget'
    exact hapart j row' (by rw [hk]; exact hj) hget'
  obtain ⟨r, hr⟩ := hstore { collected.1 with
    protocols := Function.update collected.1.protocols k
      (Ports.inferProtocols definition.toIdentity)
    isTestFor := Function.update collected.1.isTestFor k (resolveTestTargets { db with
      argPorts := Function.update db.argPorts k args
      returnPorts := Function.update db.returnPorts k returns
      actions := db.actions.modify k (counted definition) } agent definition.isTestFor)
    collectionsOf := Function.update collected.1.collectionsOf k collected.2.toFinset }
    (by rw [hframe])
  refine ⟨r, ?_⟩
  rw [rebuild, hk]
  exact bind_ok_iff.mpr ⟨k, rfl, bind_ok_iff.mpr ⟨_, hbuilt, bind_ok_iff.mpr
    ⟨collected, hcollected, hr⟩⟩⟩

/-! ## The implementation -/

section

variable {input : ImplementationInput} {current : Option ImplementationRef}
  (hclear : clearActions db' = clearActions db)

include hclear

theorem storeImplementation_transfer {pk : Option ImplementationId} {row : Implementation}
    {r : Database × ImplementationId} (h : storeImplementation db pk row = .ok r) :
    ∃ r', storeImplementation db' pk row = .ok r' ∧ clearActions r'.1 = clearActions r.1 ∧
      r'.2 = r.2 := by
  have hsame := (actionFrame hclear).implementations
  have hwith : ∀ t, clearActions { db' with implementations := t } =
      clearActions { db with implementations := t } :=
    fun t => congrArg (fun db : Database => { db with implementations := t }) hclear
  unfold storeImplementation at h ⊢
  rw [hsame]
  split at h
  · rename_i hempty
    rw [if_pos hempty]
    cases pk with
    | none =>
      cases h
      exact ⟨_, rfl, hwith _, rfl⟩
    | some i =>
      cases h
      exact ⟨_, rfl, hwith _, rfl⟩
  · cases h

theorem delete_transfer {actions : ActionId → Bool} {implementations : ImplementationId → Bool}
    {r : Database} (h : db.delete actions implementations = .ok r) :
    ∃ r', db'.delete actions implementations = .ok r' ∧ clearActions r' = clearActions r := by
  have hdoomed : db'.doomed actions implementations = db.doomed actions implementations :=
    (congrArg (fun db => Database.doomed db actions implementations) hclear :)
  have hprotected : ∀ d, db'.isProtected d = db.isProtected d :=
    fun d => (congrArg (fun db => Database.isProtected db d) hclear :)
  have hremove : ∀ d, clearActions (db'.remove d) = clearActions (db.remove d) :=
    fun d => (congrArg (fun db => clearActions (Database.remove db d)) hclear :)
  unfold Database.delete at h ⊢
  dsimp only at h ⊢
  rw [hdoomed, hprotected]
  split at h
  · cases h
  · rename_i hnot
    cases h
    rw [if_neg hnot]
    exact ⟨_, rfl, hremove _⟩

theorem dropOrphan_transfer {row : Implementation} {pk : Option ActionId}
    {r : Database × Option ActionId} (h : dropOrphan db row pk = .ok r) :
    ∃ r', dropOrphan db' row pk = .ok r' ∧ clearActions r'.1 = clearActions r.1 ∧
      r'.2 = r.2 := by
  have hcount : implementationCount db' row.action = implementationCount db row.action := by
    rw [implementationCount, (actionFrame hclear).implementations]
    rfl
  unfold dropOrphan at h ⊢
  rw [hcount]
  split at h
  · rename_i hcond
    obtain ⟨removed, hremoved, h⟩ := bind_ok_iff.mp h
    obtain ⟨removed', hremoved', hsame⟩ := delete_transfer hclear hremoved
    rw [if_pos hcond, ← pure_ok_iff.mp h]
    exact ⟨_, bind_ok_iff.mpr ⟨removed', hremoved', rfl⟩, hsame, rfl⟩
  · rename_i hcond
    cases h
    rw [if_neg hcond]
    exact ⟨_, rfl, hclear, rfl⟩

theorem pointImplementation_transfer {action' : Instance Action} (hpk : action'.pk = action.pk)
    (hargs : action'.row.args = action.row.args)
    (hreturns : action'.row.returns = action.row.returns)
    {r : (Database × ImplementationRef) × Option ActionId}
    (h : pointImplementation db agentId agent input action current = .ok r) :
    ∃ r', pointImplementation db' agentId agent input action' current = .ok r' ∧
      clearActions r'.1.1 = clearActions r.1.1 ∧ r'.1.2 = r.1.2 ∧ r'.2 = r.2 := by
  have haudience : resolvedAudience input action'.row = resolvedAudience input action.row := by
    rw [resolvedAudience, resolvedAudience, hargs, hreturns]
  unfold pointImplementation at h ⊢
  dsimp only at h ⊢
  rw [hpk, haudience]
  cases current with
  | none =>
    obtain ⟨k, hk, h⟩ := bind_ok_iff.mp h
    obtain ⟨stored, hstored, h⟩ := bind_ok_iff.mp h
    obtain ⟨stored', hstored', hsame, hkey⟩ := storeImplementation_transfer hclear hstored
    rw [← pure_ok_iff.mp h]
    refine ⟨_, bind_ok_iff.mpr ⟨k, hk, bind_ok_iff.mpr ⟨stored', hstored', rfl⟩⟩, hsame, ?_, rfl⟩
    rw [hkey]
  | some ref =>
    obtain ⟨dropped, hdropped, h⟩ := bind_ok_iff.mp h
    obtain ⟨k, hk, h⟩ := bind_ok_iff.mp h
    obtain ⟨stored, hstored, h⟩ := bind_ok_iff.mp h
    obtain ⟨dropped', hdropped', hsame₁, hdrop⟩ := dropOrphan_transfer hclear hdropped
    obtain ⟨stored', hstored', hsame, hkey⟩ := storeImplementation_transfer hsame₁ hstored
    rw [← pure_ok_iff.mp h]
    refine ⟨_, bind_ok_iff.mpr ⟨dropped', hdropped', bind_ok_iff.mpr ⟨k, hk, bind_ok_iff.mpr
      ⟨stored', hstored', rfl⟩⟩⟩, hsame, ?_, hdrop⟩
    rw [hkey]

theorem linkManipulates_transfer {i : ImplementationId} {manipulates : Option (List String)} :
    clearActions (linkManipulates db' agentId i manipulates) =
      clearActions (linkManipulates db agentId i manipulates) := by
  have hwith : ∀ m, clearActions { db' with manipulates := m } =
      clearActions { db with manipulates := m } :=
    fun m => congrArg (fun db : Database => { db with manipulates := m }) hclear
  have hbefore := actionFrame hclear
  have hstates : ∀ interfaces, statesWith db' agentId interfaces =
      statesWith db agentId interfaces := by
    intro interfaces
    rw [statesWith, hbefore.states]
    rfl
  unfold linkManipulates
  split
  · exact hclear
  · rw [hstates, hbefore.manipulates]
    exact hwith _

theorem saveTracks_transfer {ref : ImplementationRef} {tracks : Option (List Track)}
    {r : Database × ImplementationRef} (h : saveTracks db ref tracks = .ok r) :
    ∃ r', saveTracks db' ref tracks = .ok r' ∧ clearActions r'.1 = clearActions r.1 ∧
      r'.2 = r.2 := by
  unfold saveTracks at h ⊢
  split at h
  · rename_i hnone
    cases h
    rw [if_pos hnone]
    exact ⟨_, rfl, hclear, rfl⟩
  · rename_i hsome
    obtain ⟨stored, hstored, h⟩ := bind_ok_iff.mp h
    obtain ⟨stored', hstored', hsame, hkey⟩ := storeImplementation_transfer hclear hstored
    rw [if_neg hsome, ← pure_ok_iff.mp h]
    refine ⟨_, bind_ok_iff.mpr ⟨stored', hstored', rfl⟩, hsame, ?_⟩
    rw [hkey]

/-- What is stored of the actions does not matter to the implementation. -/
theorem installImplementation_transfer {action' : Instance Action} (hpk : action'.pk = action.pk)
    (hargs : action'.row.args = action.row.args)
    (hreturns : action'.row.returns = action.row.returns) {r : Registered}
    (h : installImplementation db agentId agent input action current = .ok r) :
    ∃ r', installImplementation db' agentId agent input action' current = .ok r' ∧
      clearActions r'.db = clearActions r.db ∧ r'.implementation = r.implementation := by
  obtain ⟨pointed, hpointed, h⟩ := bind_ok_iff.mp h
  obtain ⟨synced, hsynced, h⟩ := bind_ok_iff.mp h
  obtain ⟨tracked, htracked, h⟩ := bind_ok_iff.mp h
  obtain ⟨pointed', hpointed', hsame, href, _⟩ :=
    pointImplementation_transfer hclear hpk hargs hreturns hpointed
  obtain ⟨dependencies, hdependencies, hsynced⟩ := bind_ok_iff.mp hsynced
  have hsynced' : syncDependencies pointed'.1.1 pointed'.1.2.1 input.dependencies =
      .ok { pointed'.1.1 with dependencies := dependencies } := by
    refine bind_ok_iff.mpr ⟨dependencies, ?_, rfl⟩
    rw [href, (actionFrame hsame).dependencies]
    exact hdependencies
  have hclear₁ : clearActions { pointed'.1.1 with dependencies := dependencies } =
      clearActions synced := by
    rw [← pure_ok_iff.mp hsynced]
    exact congrArg (fun db : Database => { db with dependencies := dependencies }) hsame
  obtain ⟨tracked', htracked', hclear₂, htrackedRef⟩ :=
    saveTracks_transfer (linkManipulates_transfer hclear₁) htracked
  rw [← href] at htracked'
  rw [← pure_ok_iff.mp h]
  exact ⟨_, bind_ok_iff.mpr ⟨pointed', hpointed', bind_ok_iff.mpr ⟨_, hsynced', bind_ok_iff.mpr
    ⟨tracked', htracked', rfl⟩⟩⟩, hclear₂, htrackedRef⟩

end

end Registration
end Rekuest
