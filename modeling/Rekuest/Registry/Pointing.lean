import Rekuest.Registry.Steps

/-!
# Rekuest.Registry.Pointing

What a registration does to the implementation, and a registration as a whole.

* `Dropped`: whether the action that the interface leaves was deleted, and the database then.
* `Installed`: what is stored of the implementation in the end.
* `register_ok`: the registration as the action, the deletion and the implementation.
-/

namespace Rekuest
namespace Registration

open Fallible
open Interleave (Table)

/-- What the registration of an implementation leaves alone, once the action is deleted. -/
def clearImplementations (db : Database) : Database :=
  { db with
    implementations := .empty
    dependencies := .empty
    manipulates := fun _ => ∅ }

/-- The tables that the registration of an implementation leaves alone then. -/
structure ImplementationFrame (db db' : Database) : Prop where
  tasks : db'.tasks = db.tasks
  events : db'.events = db.events
  actions : db'.actions = db.actions
  states : db'.states = db.states
  resolutions : db'.resolutions = db.resolutions
  collections : db'.collections = db.collections
  view : ∀ k, view db' k = view db k

variable {H : Hashing} {db db' : Database} {agentId : AgentId} {agent : Agent}
  {input : ImplementationInput} {action : Instance Action} {current : Option ImplementationRef}
  {k : ActionId}

theorem implementationFrame (h : clearImplementations db' = clearImplementations db) :
    ImplementationFrame db db' where
  tasks := (congrArg Database.tasks h :)
  events := (congrArg Database.events h :)
  actions := (congrArg Database.actions h :)
  states := (congrArg Database.states h :)
  resolutions := (congrArg Database.resolutions h :)
  collections := (congrArg Database.collections h :)
  view k := (congrArg (fun db => Registration.view db k) h :)

/-! ## The deletion -/

/-- The interface leaves the only use of another action than `k`. -/
def Abandons (db : Database) (current : Option ImplementationRef) (k : ActionId) : Prop :=
  ∃ ref, current = some ref ∧ ref.2.action ≠ k ∧ implementationCount db ref.2.action = 1

/-- The database after the deletion of the abandoned action, if there is one. -/
structure Dropped (db : Database) (current : Option ImplementationRef) (k : ActionId)
    (db' : Database) (dropped : Option ActionId) : Prop where
  kept : ¬ Abandons db current k → db' = db ∧ dropped = none
  deleted : ∀ ref, current = some ref → Abandons db current k → dropped = some ref.2.action ∧
    db' = db.remove (db.doomed (fun j => j = ref.2.action) fun _ => false)

theorem dropOrphan_ok {ref : ImplementationRef} {r : Database × Option ActionId}
    (h : dropOrphan db ref.2 (some k) = .ok r) : Dropped db (some ref) k r.1 r.2 := by
  unfold dropOrphan at h
  split at h
  · rename_i hcond
    have habandons : Abandons db (some ref) k :=
      ⟨ref, rfl, fun hk => hcond.1 (by rw [hk]), hcond.2⟩
    obtain ⟨removed, hremoved, h⟩ := bind_ok_iff.mp h
    rw [← pure_ok_iff.mp h]
    refine ⟨fun hnot => absurd habandons hnot, fun ref' href _ => ?_⟩
    cases href
    exact ⟨rfl, (Database.delete_ok hremoved).1⟩
  · rename_i hcond
    cases h
    have hnot : ¬ Abandons db (some ref) k := by
      intro habandons
      obtain ⟨ref', href, hne, hcount⟩ := habandons
      cases href
      exact hcond ⟨fun hk => hne (Option.some.inj hk), hcount⟩
    exact ⟨fun _ => ⟨rfl, rfl⟩, fun _ _ habandons => absurd habandons hnot⟩

/-! ## The implementation -/

/-- The row of the implementation before the registration writes it. -/
def baseRow (agentId : AgentId) (input : ImplementationInput) (current : Option ImplementationRef)
    (k : ActionId) : Implementation :=
  (current.map (·.2)).getD { interface := input.interface, action := k, agent := agentId }

/-- No implementation but `i` has the agent and the interface, or the agent and the action, of the
row. -/
def Alone (db : Database) (i : ImplementationId) (row : Implementation) : Prop :=
  ∀ j other, j ≠ i → db.implementations.get j = some other → other.agent = row.agent →
    other.interface ≠ row.interface ∧ other.action ≠ row.action

theorem storeImplementation_ok {pk : Option ImplementationId} {row : Implementation}
    {r : Database × ImplementationId} (h : storeImplementation db pk row = .ok r)
    (hpk : ∀ i, pk = some i → i < db.implementations.next) :
    r.2 = pk.getD db.implementations.next ∧ r.1.implementations.get r.2 = some row ∧
      (∀ j, j ≠ r.2 → r.1.implementations.get j = db.implementations.get j) ∧
      db.implementations.next ≤ r.1.implementations.next ∧
      Alone db r.2 row ∧ r.1 = { db with implementations := r.1.implementations } := by
  unfold storeImplementation at h
  split at h
  · rename_i hempty
    have halone : ∀ j other, some j ≠ pk → db.implementations.get j = some other →
        other.agent = row.agent → other.interface ≠ row.interface ∧ other.action ≠ row.action := by
      intro j other hj hget hagent
      by_contra hsame
      have hmem : (j, other) ∈ db.implementations.select fun i other =>
          some i ≠ pk && other.agent = row.agent &&
            (other.interface = row.interface || other.action = row.action) := by
        refine Table.mem_select.mpr ⟨hget, ?_⟩
        simp only [hj, ne_eq, not_false_eq_true, decide_true, hagent, Bool.true_and,
          Bool.or_eq_true, decide_eq_true_eq]
        by_contra hor
        exact hsame (not_or.mp hor)
      rw [List.isEmpty_iff.mp hempty] at hmem
      cases hmem
    cases hk : pk with
    | none =>
      rw [hk] at h halone
      cases h
      exact ⟨rfl, Table.get_insert_next, fun j hj => if_neg hj, Nat.le_succ _,
        fun j other _ hget => halone j other (by simp) hget, rfl⟩
    | some i =>
      rw [hk] at h halone
      cases h
      exact ⟨rfl, Table.get_put_self (hpk i hk), fun j hj => Table.get_put_of_ne hj, Nat.le_refl _,
        fun j other hj hget => halone j other (fun hji => hj (Option.some.inj hji)) hget, rfl⟩
  · cases h

/-- What is stored of the implementation in the end. `db` is the database after the deletion. -/
structure Installed (db : Database) (agentId : AgentId) (agent : Agent)
    (input : ImplementationInput) (action : Action) (k : ActionId)
    (current : Option ImplementationRef) (db' : Database) (ref : ImplementationRef) : Prop where
  key : ref.1 = (current.map (·.1)).getD db.implementations.next
  row : ref.2 = { configure (baseRow agentId input current k) agent input k
      (resolvedAudience input action) with
    tracks := if input.tracks.getD [] = [] then (baseRow agentId input current k).tracks
      else input.tracks.getD [] }
  get : db'.implementations.get ref.1 = some ref.2
  others : ∀ j, j ≠ ref.1 → db'.implementations.get j = db.implementations.get j
  grows : db.implementations.next ≤ db'.implementations.next
  alone : Alone db ref.1 ref.2
  dependencies : input.dependencies.foldlM (syncDependency ref.1) db.dependencies =
    .ok db'.dependencies
  manipulates : db'.manipulates = if input.manipulates.getD [] = [] then db.manipulates
    else Function.update db.manipulates ref.1 (statesWith db agentId (input.manipulates.getD []))
  frame : clearImplementations db' = clearImplementations db

theorem saveTracks_ok {ref : ImplementationRef} {tracks : Option (List Track)}
    {r : Database × ImplementationRef} (h : saveTracks db ref tracks = .ok r)
    (hget : db.implementations.get ref.1 = some ref.2) :
    r.2 = (ref.1, { ref.2 with
      tracks := if tracks.getD [] = [] then ref.2.tracks else tracks.getD [] }) ∧
      r.1.implementations.get r.2.1 = some r.2.2 ∧
      (∀ j, j ≠ r.2.1 → r.1.implementations.get j = db.implementations.get j) ∧
      db.implementations.next ≤ r.1.implementations.next ∧
      r.1 = { db with implementations := r.1.implementations } := by
  unfold saveTracks at h
  split at h
  · rename_i hnone
    cases h
    rw [if_pos hnone]
    exact ⟨rfl, hget, fun _ _ => rfl, Nat.le_refl _, rfl⟩
  · rename_i hsome
    obtain ⟨stored, hstored, h⟩ := bind_ok_iff.mp h
    rw [← pure_ok_iff.mp h, if_neg hsome]
    obtain ⟨hkey, hrow, hothers, hgrows, _, hframe⟩ := storeImplementation_ok hstored fun i hi => by
      cases hi
      exact Table.lt_next hget
    exact ⟨by rw [hkey]; rfl, hrow, hothers, hgrows, hframe⟩

theorem syncDependencies_ok {i : ImplementationId} {dependencies : List AgentDependency}
    (h : syncDependencies db i dependencies = .ok db') :
    db' = { db with dependencies := db'.dependencies } ∧
      dependencies.foldlM (syncDependency i) db.dependencies = .ok db'.dependencies := by
  obtain ⟨synced, hsynced, h⟩ := bind_ok_iff.mp h
  rw [← pure_ok_iff.mp h]
  exact ⟨rfl, hsynced⟩

theorem pointImplementation_ok {r : (Database × ImplementationRef) × Option ActionId}
    (h : pointImplementation db agentId agent input action current = .ok r)
    (hcurrent : ∀ ref, current = some ref → ref.1 < db.implementations.next) :
    ∃ k db', action.pk = some k ∧ Dropped db current k db' r.2 ∧
      storeImplementation db' (current.map (·.1)) (configure (baseRow agentId input current k) agent
        input k (resolvedAudience input action.row)) = .ok (r.1.1, r.1.2.1) ∧
      r.1.2.2 = configure (baseRow agentId input current k) agent input k
        (resolvedAudience input action.row) := by
  unfold pointImplementation at h
  dsimp only at h
  split at h
  · rename_i ref
    obtain ⟨dropped, hdropped, h⟩ := bind_ok_iff.mp h
    obtain ⟨k, hk, h⟩ := bind_ok_iff.mp h
    obtain ⟨stored, hstored, h⟩ := bind_ok_iff.mp h
    rw [orRaise_ok_iff] at hk
    rw [hk] at hdropped
    rw [← pure_ok_iff.mp h]
    exact ⟨k, dropped.1, hk, dropOrphan_ok hdropped, hstored, rfl⟩
  · obtain ⟨k, hk, h⟩ := bind_ok_iff.mp h
    obtain ⟨stored, hstored, h⟩ := bind_ok_iff.mp h
    rw [orRaise_ok_iff] at hk
    rw [← pure_ok_iff.mp h]
    refine ⟨k, db, hk, ⟨fun _ => ⟨rfl, rfl⟩, fun ref href => (by cases href)⟩, hstored, rfl⟩

theorem Dropped.frame {dropped : Option ActionId} (h : Dropped db current k db' dropped) :
    db'.implementations.next = db.implementations.next ∧ db'.actions.next = db.actions.next ∧
      db'.collections = db.collections := by
  by_cases habandons : Abandons db current k
  · have hdeleted := h.deleted
    obtain ⟨ref, href, _⟩ := id habandons
    rw [(hdeleted ref href habandons).2]
    exact ⟨rfl, rfl, rfl⟩
  · rw [(h.kept habandons).1]
    exact ⟨rfl, rfl, rfl⟩

theorem Abandons.congr (himplementations : db'.implementations = db.implementations) :
    Abandons db' current k ↔ Abandons db current k := by
  simp only [Abandons, implementationCount, himplementations]

/-- The implementation of the interface goes with the action that it abandons. -/
theorem Abandons.doomed {ref : ImplementationRef}
    (hget : db.implementations.get ref.1 = some ref.2) :
    (db.doomed (fun j => j = ref.2.action) fun _ => false).implementation ref.1 = true := by
  simp [Database.doomed, hget]

/-! ## The registration -/

theorem registerAction_frame {found : Option (Instance Action)} {r : Database × Instance Action}
    (h : registerAction H db agent input.definition found = .ok r)
    (hfits : ∀ a, found = some a → Fits db a) : clearActions r.1 = clearActions db := by
  rcases registerAction_ok h hfits with ⟨k, hwritten⟩ | ⟨k, row, hkept⟩ | hstale
  · exact hwritten.settled.frame
  · exact hkept.settled.frame
  · rw [hstale.unchanged]

theorem installImplementation_ok {r : Registered}
    (h : installImplementation db agentId agent input action current = .ok r)
    (hcurrent : ∀ ref, current = some ref → ref.1 < db.implementations.next) :
    r.action = action ∧ ∃ k db', action.pk = some k ∧ Dropped db current k db' r.dropped ∧
      Installed db' agentId agent input action.row k current r.db r.implementation := by
  obtain ⟨pointed, hpointed, h⟩ := bind_ok_iff.mp h
  obtain ⟨synced, hsynced, h⟩ := bind_ok_iff.mp h
  obtain ⟨tracked, htracked, h⟩ := bind_ok_iff.mp h
  rw [← pure_ok_iff.mp h]
  obtain ⟨k, db', hk, hdropped, hstored, hrow⟩ := pointImplementation_ok hpointed hcurrent
  obtain ⟨hkey, hget, hothers, hgrows, halone, hpointframe⟩ := storeImplementation_ok hstored
    fun i hi => by
      obtain ⟨ref, href, hi⟩ := Option.map_eq_some_iff.mp hi
      rw [hdropped.frame.1, ← hi]
      exact hcurrent ref href
  obtain ⟨hsyncframe, hfold⟩ := syncDependencies_ok hsynced
  have hlinked : (linkManipulates synced agentId pointed.1.2.1 input.manipulates).implementations =
      pointed.1.1.implementations := by
    rw [linkManipulates, hsyncframe]
    split <;> rfl
  obtain ⟨href, hgetref, hothersref, hgrowsref, htrackframe⟩ := saveTracks_ok htracked (by
    rw [hlinked, hget, hrow])
  refine ⟨rfl, k, db', hk, hdropped, ?_⟩
  dsimp only at hkey hget hothers halone
  refine {
    key := ?_
    row := ?_
    get := hgetref
    others := fun j hj => ?_
    grows := ?_
    alone := ?_
    dependencies := ?_
    manipulates := ?_
    frame := ?_ }
  · rw [href, hkey]
  · rw [href, hrow]
    rfl
  · rw [hothersref j hj, hlinked]
    rw [href] at hj
    exact hothers j hj
  · rw [hlinked] at hgrowsref
    exact Nat.le_trans hgrows hgrowsref
  · intro j other hj hother hagent
    rw [href] at hj hagent ⊢
    dsimp only at hj hagent ⊢
    rw [hrow] at hagent ⊢
    exact halone j other hj hother hagent
  · rw [htrackframe, href]
    have hdeps : (linkManipulates synced agentId pointed.1.2.1 input.manipulates).dependencies =
        synced.dependencies := by
      rw [linkManipulates]
      split <;> rfl
    rw [hpointframe] at hfold
    rw [hdeps]
    exact hfold
  · rw [htrackframe, href]
    rw [linkManipulates, hsyncframe, hpointframe]
    split <;> rfl
  · rw [htrackframe]
    rw [linkManipulates, hsyncframe, hpointframe]
    split <;> rfl

/-- A registration: the action first, then what its interface leaves, then the implementation. -/
theorem register_ok {found : Option (Instance Action)} {r : Registered}
    (h : register H db agentId agent input found current = .ok r)
    (hfits : ∀ a, found = some a → Fits db a)
    (hcurrent : ∀ ref, current = some ref → ref.1 < db.implementations.next) :
    ∃ k db₁ db₂, r.action.pk = some k ∧
      registerAction H db agent input.definition found = .ok (db₁, r.action) ∧
      Dropped db₁ current k db₂ r.dropped ∧
      Installed db₂ agentId agent input r.action.row k current r.db r.implementation := by
  obtain ⟨_, _, h⟩ := bind_ok_iff.mp h
  obtain ⟨registered, hregistered, h⟩ := bind_ok_iff.mp h
  have hframe := registerAction_frame hregistered hfits
  have himplementations := (actionFrame hframe).implementations
  rw [← himplementations] at hcurrent
  obtain ⟨haction, k, db₂, hk, hdropped, hinstalled⟩ := installImplementation_ok h hcurrent
  rw [haction]
  exact ⟨k, registered.1, db₂, hk, hregistered, hdropped, hinstalled⟩

/-- The key of the action that a definition is registered under. -/
def actionKey (db : Database) (agent : Agent) (definition : Definition) : ActionId :=
  ((findAction db agent definition).bind Instance.pk).getD db.actions.next

/-- The key of the implementation that an interface is registered under. -/
def implementationKey (db : Database) (agentId : AgentId) (interface : String) :
    ImplementationId :=
  ((findImplementation db agentId interface).map (·.1)).getD db.implementations.next

theorem findAction_eq_some {definition : Definition} {a : Instance Action}
    (h : findAction db agent definition = some a) :
    ∃ k, a.pk = some k ∧ db.actions.get k = some a.row ∧ a.row.coordinate =
      (agent.organization, agent.app, definition.key, definition.version) := by
  obtain ⟨row, hrow, ha⟩ := Option.map_eq_some_iff.mp h
  obtain ⟨hget, hcoordinate⟩ := Table.mem_select.mp (List.mem_of_mem_head? hrow)
  rw [← ha]
  exact ⟨row.1, rfl, hget, by simpa using hcoordinate⟩

theorem findImplementation_eq_some {interface : String} {ref : ImplementationRef}
    (h : findImplementation db agentId interface = some ref) :
    db.implementations.get ref.1 = some ref.2 ∧ ref.2.interface = interface ∧
      ref.2.agent = agentId := by
  obtain ⟨hget, hmeets⟩ := Table.mem_select.mp (List.mem_of_mem_head? h)
  rw [Bool.and_eq_true, decide_eq_true_eq, decide_eq_true_eq] at hmeets
  exact ⟨hget, hmeets.1, hmeets.2⟩

theorem findAction_fits {definition : Definition} {a : Instance Action}
    (h : findAction db agent definition = some a) : Fits db a := by
  obtain ⟨k, hk, hget, _⟩ := findAction_eq_some h
  intro j hj
  rw [hk] at hj
  cases hj
  refine ⟨Table.lt_next hget, fun row hrow => ?_⟩
  rw [hget] at hrow
  exact (Option.some.inj hrow).symm

theorem createImplementation_ok {r : Registered}
    (h : createImplementation H db agentId agent input = .ok r) :
    ∃ db₁ db₂, r.action.pk = some (actionKey db agent input.definition) ∧
      (Rewritten H db agent input.definition (findAction db agent input.definition) (db₁, r.action)
          (actionKey db agent input.definition) ∨
        ∃ row, Kept H db input.definition (findAction db agent input.definition) (db₁, r.action)
          (actionKey db agent input.definition) row) ∧
      clearActions db₁ = clearActions db ∧
      Dropped db₁ (findImplementation db agentId input.interface)
        (actionKey db agent input.definition) db₂ r.dropped ∧
      Installed db₂ agentId agent input r.action.row (actionKey db agent input.definition)
        (findImplementation db agentId input.interface) r.db r.implementation := by
  have hfits : ∀ a, findAction db agent input.definition = some a → Fits db a :=
    fun a ha => findAction_fits ha
  have hcurrent : ∀ ref, findImplementation db agentId input.interface = some ref →
      ref.1 < db.implementations.next :=
    fun ref href => Table.lt_next (findImplementation_eq_some href).1
  obtain ⟨k, db₁, db₂, hk, hregistered, hdropped, hinstalled⟩ := register_ok h hfits hcurrent
  have hkey : k = actionKey db agent input.definition := by
    unfold actionKey
    rcases registerAction_ok hregistered hfits with ⟨j, hj⟩ | ⟨j, row, hj⟩ | hj
    · have hjk : j = k := Option.some.inj ((congrArg Instance.pk hj.object).symm.trans hk)
      rw [← hjk]
      cases hf : findAction db agent input.definition with
      | none => exact hj.new fun a ha => (by rw [hf] at ha; cases ha)
      | some a =>
        obtain ⟨i, hi, _⟩ := findAction_eq_some hf
        rw [hj.key a i hf hi, Option.bind_some, hi]
        rfl
    · have hjk : j = k := Option.some.inj ((congrArg Instance.pk hj.object).symm.trans hk)
      rw [hj.found, ← hjk]
      rfl
    · rw [hj.found, Option.bind_some, hk]
      rfl
  rw [hkey] at hk hdropped hinstalled
  refine ⟨db₁, db₂, hk, ?_, registerAction_frame hregistered hfits, hdropped, hinstalled⟩
  rcases registerAction_ok hregistered hfits with ⟨j, hj⟩ | ⟨j, row, hj⟩ | hj
  · have hjk := Option.some.inj ((congrArg Instance.pk hj.object).symm.trans hk)
    exact .inl (hjk ▸ hj)
  · have hjk := Option.some.inj ((congrArg Instance.pk hj.object).symm.trans hk)
    exact .inr ⟨row, hjk ▸ hj⟩
  · obtain ⟨i, hi, hget, _⟩ := findAction_eq_some hj.found
    have hgone := hj.gone i hi
    rw [hget] at hgone
    cases hgone

theorem createImplementation_key {r : Registered}
    (h : createImplementation H db agentId agent input = .ok r) :
    r.implementation.1 = implementationKey db agentId input.interface := by
  obtain ⟨db₁, db₂, _, _, hframe, hdropped, hinstalled⟩ := createImplementation_ok h
  have himplementations := (actionFrame hframe).implementations
  rw [hinstalled.key, hdropped.frame.1, himplementations]
  rfl

section

variable (db : Database) (agentId : AgentId) (agent : Agent) (input : ImplementationInput)

/-- The interface leaves the only use of its action, which is deleted. -/
def AbandonsAction : Prop :=
  Abandons db (findImplementation db agentId input.interface) (actionKey db agent input.definition)

end

section

variable {db₁ db₂ : Database} {dropped : Option ActionId}
  (hframe : clearActions db₁ = clearActions db)
  (hdropped : Dropped db₁ (findImplementation db agentId input.interface)
    (actionKey db agent input.definition) db₂ dropped)

include hframe hdropped

theorem dropped_cases :
    (¬ AbandonsAction db agentId agent input ∧ db₂ = db₁) ∨
    ∃ ref, AbandonsAction db agentId agent input ∧
      findImplementation db agentId input.interface = some ref ∧
      db₂ = db₁.remove (db₁.doomed (fun j => j = ref.2.action) fun _ => false) ∧
      (db₁.doomed (fun j => j = ref.2.action) fun _ => false).implementation ref.1 = true := by
  have himplementations := (actionFrame hframe).implementations
  by_cases habandons : AbandonsAction db agentId agent input
  · have h := (Abandons.congr himplementations).mpr habandons
    obtain ⟨ref, href, _⟩ := id habandons
    refine .inr ⟨ref, habandons, href, (hdropped.deleted ref href h).2, Abandons.doomed ?_⟩
    rw [himplementations]
    exact (findImplementation_eq_some href).1
  · have h := fun h => habandons ((Abandons.congr himplementations).mp h)
    exact .inl ⟨habandons, (hdropped.kept h).1⟩

end

/-! ## A small app -/

/-- Definitions told apart by their key, version and name. -/
def naming : Hashing where
  definition d := d.key ++ "/" ++ d.version ++ "/" ++ d.name
  state _ := ""

def microscope : Agent where
  name := "microscope"
  app := "mikro"
  release := "1.0"
  hash := ""
  user := ⟨1, "user"⟩
  client := ⟨1, "client"⟩
  organization := ⟨1, "org"⟩

/-- The microscope, with nothing registered yet. -/
def laboratory : Database := { agents := Table.empty.insert microscope }

def declare (interface key : String) : ImplementationInput where
  interface := interface
  definition := { key := key, name := key }

end Registration
end Rekuest
