import Rekuest.Registry.Pointing

/-!
# Rekuest.Registry.Turns

A registration for objects that were looked up or kept in the maps of a batch, and a batch as a
run of registrations.

* `Looked`: what the objects have in common with their rows. `Turned`: all that a registration
  leaves of the actions and the implementations.
* `Mirrors`: the maps of a batch have such objects only, after every turn.
* `registerBatch_induction`: what every turn keeps holds at the end.
-/

namespace Rekuest
namespace Registration

open Fallible
open Interleave (Table)

/-- The rows differ in what they wrap at most. -/
def Alike (row other : Implementation) : Prop :=
  other = { row with higherOrderFor := other.higherOrderFor }

theorem Alike.agent {row other : Implementation} (h : Alike row other) :
    other.agent = row.agent := by
  rw [h]

theorem Alike.action {row other : Implementation} (h : Alike row other) :
    other.action = row.action := by
  rw [h]

theorem Alike.higherOrderConfig {row other : Implementation} (h : Alike row other) :
    other.higherOrderConfig = row.higherOrderConfig := by
  rw [h]

/-- What is stored of an action, without the link to the deleted one. -/
def ActionView.unlink (v : ActionView) (dropped : Option ActionId) : ActionView :=
  { v with isTestFor := v.isTestFor.filter fun j => dropped ≠ some j }

/-- The objects of a registration: the action is as its row is, where it has one, and the
implementation has its row. -/
structure Looked (db : Database) (agentId : AgentId) (agent : Agent) (input : ImplementationInput)
    (found : Option (Instance Action)) (current : Option ImplementationRef) : Prop where
  fits : ∀ a, found = some a → Fits db a
  coordinate : ∀ a, found = some a → a.row.coordinate =
    (agent.organization, agent.app, input.definition.key, input.definition.version)
  current : ∀ ref, current = some ref → ref.2.agent = agentId ∧ ref.2.interface = input.interface ∧
    ∃ row, db.implementations.get ref.1 = some row ∧ Alike ref.2 row

variable {H : Hashing} {db db' db₁ db₂ : Database} {agentId : AgentId} {agent : Agent}
  {input : ImplementationInput} {found : Option (Instance Action)}
  {current : Option ImplementationRef} {k : ActionId} {dropped : Option ActionId}

theorem looked_createImplementation : Looked db agentId agent input
    (findAction db agent input.definition) (findImplementation db agentId input.interface) where
  fits _ ha := findAction_fits ha
  coordinate a ha := by
    obtain ⟨_, _, _, hcoordinate⟩ := findAction_eq_some ha
    exact hcoordinate
  current ref href := by
    obtain ⟨hget, hinterface, hagent⟩ := findImplementation_eq_some href
    exact ⟨hagent, hinterface, ref.2, hget, rfl⟩

/-! ## One registration -/

theorem unlink_none (v : ActionView) : v.unlink none = v := by
  simp [ActionView.unlink]

theorem Dropped.view (h : Dropped db current k db' dropped) {j : ActionId} (hj : dropped ≠ some j) :
    view db' j = (view db j).unlink dropped := by
  by_cases habandons : Abandons db current k
  · have hdeleted := h.deleted
    obtain ⟨ref, href, _⟩ := id habandons
    obtain ⟨hdropped, hdb⟩ := hdeleted ref href habandons
    rw [hdropped] at hj
    have hne : j ≠ ref.2.action := fun hja => hj (by rw [hja])
    rw [hdb, hdropped]
    simp only [Registration.view, Database.remove, Database.doomed, ActionView.unlink, hne,
      decide_false, Bool.false_eq_true, if_false, Bool.not_false, Table.get_erase, ne_eq,
      Option.some.injEq, ActionView.mk.injEq, true_and, and_true]
    refine ⟨by cases db.actions.get j <;> rfl, Finset.filter_congr fun i _ => ?_⟩
    simp only [Bool.not_eq_true', decide_eq_false_iff_not]
    exact not_congr eq_comm
  · obtain ⟨hdb, hdropped⟩ := h.kept habandons
    rw [hdb, hdropped, unlink_none]

theorem Dropped.gone (h : Dropped db current k db' dropped) {j : ActionId} (hj : dropped = some j) :
    db'.actions.get j = none := by
  by_cases habandons : Abandons db current k
  · have hdeleted := h.deleted
    obtain ⟨ref, href, _⟩ := id habandons
    obtain ⟨hdropped, hdb⟩ := hdeleted ref href habandons
    rw [hdropped] at hj
    cases hj
    rw [hdb]
    simp [Database.remove, Database.doomed]
  · rw [(h.kept habandons).2] at hj
    cases hj

/-- What is deleted is the action of the interface, which nothing else implements. -/
theorem Dropped.only (h : Dropped db current k db' dropped) {a : ActionId} (ha : dropped = some a) :
    ∃ ref, current = some ref ∧ ref.2.action = a ∧ a ≠ k ∧ implementationCount db a = 1 := by
  by_cases habandons : Abandons db current k
  · have hdeleted := h.deleted
    obtain ⟨ref, href, hne, hcount⟩ := id habandons
    rw [(hdeleted ref href habandons).1] at ha
    cases ha
    exact ⟨ref, href, rfl, hne, hcount⟩
  · rw [(h.kept habandons).2] at ha
    cases ha

/-- The implementations that the deletion leaves: all but the interface's own. -/
theorem Dropped.implementations (h : Dropped db current k db' dropped) {j : ImplementationId} :
    (∀ row, db'.implementations.get j = some row →
      ∃ before, db.implementations.get j = some before ∧ Alike before row) ∧
    (∀ before, db.implementations.get j = some before → dropped ≠ some before.action →
      ∃ row, db'.implementations.get j = some row ∧ Alike before row) := by
  by_cases habandons : Abandons db current k
  · have hdeleted := h.deleted
    obtain ⟨ref, href, _⟩ := id habandons
    obtain ⟨hdropped, hdb⟩ := hdeleted ref href habandons
    rw [hdb, hdropped]
    constructor
    · intro row hrow
      obtain ⟨before, hbefore, hlinks⟩ := Option.map_eq_some_iff.mp hrow
      refine ⟨before, (Table.get_erase_eq_some_iff.mp hbefore).1, ?_⟩
      rw [← hlinks]
      rfl
    · intro before hbefore hne
      have hkept : before.action ≠ ref.2.action := fun hsame => hne (by rw [hsame])
      refine ⟨_, Option.map_eq_some_iff.mpr ⟨before, ?_, rfl⟩, rfl⟩
      exact Table.get_erase_eq_some_iff.mpr ⟨hbefore, by simp [Database.doomed, hbefore, hkept]⟩
  · obtain ⟨hdb, _⟩ := h.kept habandons
    rw [hdb]
    exact ⟨fun row hrow => ⟨row, hrow, rfl⟩, fun before hbefore _ => ⟨before, hbefore, rfl⟩⟩

/-- What became of the action itself. -/
inductive Acted (H : Hashing) (db : Database) (agent : Agent) (definition : Definition)
    (found : Option (Instance Action)) (r : Database × Instance Action) (k : ActionId) : Prop where
  | rewritten (h : Rewritten H db agent definition found r k) : Acted H db agent definition found r k
  | kept (row : Action) (h : Kept H db definition found r k row) :
      Acted H db agent definition found r k
  | stale (h : Stale H db definition found r) : Acted H db agent definition found r k

/-- What a registration leaves: of the action `k`, of the other actions, and of the
implementations. `db₁` is the database after the registration of the action. -/
structure Turned (H : Hashing) (db : Database) (agentId : AgentId) (agent : Agent)
    (input : ImplementationInput) (found : Option (Instance Action))
    (current : Option ImplementationRef) (r : Registered) (k : ActionId) (db₁ : Database) :
    Prop where
  pk : r.action.pk = some k
  acted : Acted H db agent input.definition found (db₁, r.action) k
  same : ∀ a j, found = some a → a.pk = some j → k = j
  new : (∀ a, found = some a → a.pk = none) → k = db.actions.next
  fits : Fits r.db r.action
  coordinate : r.action.row.coordinate =
    (agent.organization, agent.app, input.definition.key, input.definition.version)
  grows : db.actions.next ≤ r.db.actions.next
  collections : CollectionsGrow db.collections r.db.collections
  collected : r.db.collections = db₁.collections
  own : view r.db k = (view db₁ k).unlink r.dropped
  others : ∀ j, j ≠ k → r.dropped ≠ some j → view r.db j = (view db j).unlink r.dropped
  gone : ∀ j, r.dropped = some j → j ≠ k ∧ r.db.actions.get j = none ∧
    implementationCount db j = 1 ∧ ∃ ref, current = some ref ∧ ref.2.action = j
  id : r.implementation.1 = (current.map (·.1)).getD db.implementations.next
  installed : r.db.implementations.get r.implementation.1 = some r.implementation.2
  row : r.implementation.2.interface = input.interface ∧ r.implementation.2.agent = agentId ∧
    r.implementation.2.action = k ∧ r.implementation.2.effect = input.effect
  grown : db.implementations.next ≤ r.db.implementations.next
  alone : Alone r.db r.implementation.1 r.implementation.2
  implementations : ∀ j row, j ≠ r.implementation.1 → r.db.implementations.get j = some row →
    ∃ before, db.implementations.get j = some before ∧ Alike before row
  stay : ∀ j before, j ≠ r.implementation.1 → db.implementations.get j = some before →
    ∃ row, r.db.implementations.get j = some row ∧ Alike before row

theorem implementationCount_eq_one {i j : ImplementationId} {row other : Implementation}
    {action : ActionId} (hcount : implementationCount db action = 1)
    (hi : db.implementations.get i = some row) (hrow : row.action = action)
    (hj : db.implementations.get j = some other) (hother : other.action = action) : j = i := by
  have hmem : ∀ k a, db.implementations.get k = some a → a.action = action →
      (k, a) ∈ db.implementations.select fun _ row => row.action = action :=
    fun k a hk ha => Table.mem_select.mpr ⟨hk, decide_eq_true ha⟩
  obtain ⟨only, honly⟩ := List.length_eq_one_iff.mp hcount
  have hi' := hmem i row hi hrow
  have hj' := hmem j other hj hother
  rw [honly, List.mem_singleton] at hi' hj'
  exact congrArg Prod.fst (hj'.trans hi'.symm)

theorem Acted.facts {r : Database × Instance Action} (h : Acted H db agent input.definition found r k)
    (hlook : Looked db agentId agent input found current) (hpk : r.2.pk = some k) :
    Fits r.1 r.2 ∧
      r.2.row.coordinate =
        (agent.organization, agent.app, input.definition.key, input.definition.version) ∧
      (∀ a j, found = some a → a.pk = some j → k = j) ∧
      ((∀ a, found = some a → a.pk = none) → k = db.actions.next) ∧
      db.actions.next ≤ r.1.actions.next ∧
      CollectionsGrow db.collections r.1.collections ∧
      clearActions r.1 = clearActions db ∧
      ∀ j, j ≠ k → view r.1 j = view db j := by
  have hfitted : ∀ row, r.2.row = row → r.1.actions.get k = some row → Fits r.1 r.2 := by
    intro row hrow hget j hj
    rw [hpk] at hj
    cases hj
    refine ⟨Table.lt_next hget, fun row' hget' => ?_⟩
    rw [hget] at hget'
    rw [hrow]
    exact (Option.some.inj hget').symm
  cases h with
  | rewritten h =>
    refine ⟨hfitted _ rfl h.settled.get, ?_, h.key, h.new, h.settled.grows, h.settled.collections,
      h.settled.frame, h.settled.others⟩
    rw [h.object]
    show (upserted H agent input.definition found).coordinate = _
    unfold upserted
    split
    · split
      · exact hlook.coordinate _ rfl
      · exact hlook.coordinate _ rfl
    · rfl
  | kept row h =>
    refine ⟨hfitted _ rfl h.settled.get, ?_, fun a j ha hj => ?_, fun hnone => ?_, h.settled.grows,
      h.settled.collections, h.settled.frame, h.settled.others⟩
    · rw [h.object]
      exact hlook.coordinate ⟨some k, row⟩ h.found
    · rw [h.found] at ha
      cases ha
      exact Option.some.inj hj
    · have hpk := hnone _ h.found
      cases hpk
  | stale h =>
    have hfit := hlook.fits _ h.found
    refine ⟨?_, hlook.coordinate _ h.found, fun a j ha hj => ?_, fun hnone => ?_, ?_, ?_, ?_, ?_⟩
    · rw [h.unchanged]
      exact hfit
    · rw [h.found] at ha
      cases ha
      exact Option.some.inj (hpk.symm.trans hj)
    · have hpk' := hnone _ h.found
      rw [hpk] at hpk'
      cases hpk'
    · rw [h.unchanged]
    · rw [h.unchanged]
      exact .refl
    · rw [h.unchanged]
    · intro j _
      rw [h.unchanged]

/-- The object carries the qualifiers and the hash of the definition. -/
theorem Acted.qualified {r : Database × Instance Action}
    (h : Acted H db agent input.definition found r k) :
    r.2.row.pure = input.definition.pure ∧
      r.2.row.idempotent = input.definition.desiredIdempotent ∧
      r.2.row.hash = H.definition input.definition.toIdentity := by
  cases h with
  | rewritten h =>
    rw [h.object]
    refine ⟨rfl, rfl, ?_⟩
    show (upserted H agent input.definition found).hash = _
    unfold upserted
    split
    · split
      · assumption
      · rfl
    · rfl
  | kept row h =>
    rw [h.object]
    exact ⟨rfl, rfl, h.hash⟩
  | stale h =>
    have hqualified := h.qualified
    simp only [Action.isQualified, Bool.and_eq_true, decide_eq_true_eq] at hqualified
    exact ⟨hqualified.1.1, hqualified.1.2, h.hash⟩

theorem acted_of_registerAction {r : Database × Instance Action}
    (h : registerAction H db agent input.definition found = .ok r)
    (hfits : ∀ a, found = some a → Fits db a) (hpk : r.2.pk = some k) :
    Acted H db agent input.definition found r k := by
  rcases registerAction_ok h hfits with ⟨j, hj⟩ | ⟨j, row, hj⟩ | hj
  · have hjk : j = k := Option.some.inj ((congrArg Instance.pk hj.object).symm.trans hpk)
    exact .rewritten (hjk ▸ hj)
  · have hjk : j = k := Option.some.inj ((congrArg Instance.pk hj.object).symm.trans hpk)
    exact .kept row (hjk ▸ hj)
  · exact .stale hj

theorem turned_of_register {r : Registered}
    (h : register H db agentId agent input found current = .ok r)
    (hlook : Looked db agentId agent input found current) :
    ∃ k db₁, Turned H db agentId agent input found current r k db₁ := by
  have hcurrent : ∀ ref, current = some ref → ref.1 < db.implementations.next := by
    intro ref href
    obtain ⟨_, _, row, hrow, _⟩ := hlook.current ref href
    exact Table.lt_next hrow
  obtain ⟨k, db₁, db₂, hpk, hregistered, hdropped, hinstalled⟩ := register_ok h hlook.fits hcurrent
  have hacted := acted_of_registerAction hregistered hlook.fits hpk
  obtain ⟨hfits, hcoordinate, hsame, hnew, hgrows, hcollections, hframe, hothers⟩ :=
    hacted.facts hlook hpk
  have hbefore := actionFrame hframe
  have hafter := implementationFrame hinstalled.frame
  obtain ⟨hnext, hactionsNext, hcollected⟩ := hdropped.frame
  have hcount : ∀ a, implementationCount db₁ a = implementationCount db a := by
    intro a
    rw [implementationCount, hbefore.implementations]
    rfl
  have hkept : ∀ a, r.dropped = some a → a ≠ k ∧ implementationCount db a = 1 ∧
      ∃ ref, current = some ref ∧ ref.2.action = a := by
    intro a ha
    obtain ⟨ref, href, hrefa, hne, hone⟩ := hdropped.only ha
    exact ⟨hne, (hcount a).symm.trans hone, ref, href, hrefa⟩
  have hkdropped : r.dropped ≠ some k := fun hk => (hkept k hk).1 rfl
  have hown : view r.db k = (view db₁ k).unlink r.dropped := by
    rw [hafter.view, hdropped.view hkdropped]
  have hbase : (baseRow agentId input current k).interface = input.interface ∧
      (baseRow agentId input current k).agent = agentId := by
    cases hc : current with
    | none => exact ⟨rfl, rfl⟩
    | some ref =>
      obtain ⟨hagent, hinterface, _⟩ := hlook.current ref hc
      exact ⟨hinterface, hagent⟩
  refine ⟨k, db₁, {
    pk := hpk
    acted := hacted
    same := hsame
    new := hnew
    fits := fun j hj => ?_
    coordinate := hcoordinate
    grows := ?_
    collections := ?_
    collected := ?_
    own := hown
    others := fun j hj hdrop => ?_
    gone := fun j hj => ?_
    id := ?_
    installed := hinstalled.get
    row := ?_
    grown := ?_
    alone := fun j other hj hother => ?_
    implementations := fun j row hj hrow => ?_
    stay := fun j before hj hget => ?_ }⟩
  · rw [hpk] at hj
    cases hj
    obtain ⟨hlt, hfit⟩ := hfits k hpk
    rw [hafter.actions, hactionsNext]
    refine ⟨hlt, fun row hrow => hfit row ?_⟩
    have hrows := congrArg ActionView.row hown
    rw [← hafter.actions] at hrow
    exact hrows.symm.trans hrow
  · rw [hafter.actions, hactionsNext]
    exact hgrows
  · rw [hafter.collections, hcollected]
    exact hcollections
  · rw [hafter.collections, hcollected]
  · rw [hafter.view, hdropped.view hdrop, hothers j hj]
  · obtain ⟨hne, hone, href⟩ := hkept j hj
    refine ⟨hne, ?_, hone, href⟩
    rw [hafter.actions]
    exact hdropped.gone hj
  · rw [hinstalled.key, hnext, hbefore.implementations]
  · rw [hinstalled.row]
    exact ⟨hbase.1, hbase.2, rfl, rfl⟩
  · rw [← hbefore.implementations, ← hnext]
    exact hinstalled.grows
  · rw [hinstalled.others j hj] at hother
    exact hinstalled.alone j other hj hother
  · rw [hinstalled.others j hj] at hrow
    obtain ⟨before, hget, halike⟩ := hdropped.implementations.1 row hrow
    rw [hbefore.implementations] at hget
    exact ⟨before, hget, halike⟩
  · rw [hinstalled.others j hj]
    rw [← hbefore.implementations] at hget
    refine hdropped.implementations.2 before hget fun hdrop => ?_
    obtain ⟨_, hone, ref, href, hrefa⟩ := hkept _ hdrop
    obtain ⟨_, _, row, hrow, halike⟩ := hlook.current ref href
    rw [hbefore.implementations] at hget
    have haction : row.action = before.action := by
      rw [halike]
      exact hrefa
    have hj' := implementationCount_eq_one hone hrow haction hget rfl
    rw [hinstalled.key, href] at hj
    exact hj hj'

/-- A registration that succeeds declares coherent qualifiers. -/
theorem checkQualifiers_of_register {r : Registered}
    (h : register H db agentId agent input found current = .ok r)
    (hpure : input.definition.pure = true) :
    input.effect ≠ .physical ∧ input.definition.stateful = false := by
  obtain ⟨_, hcheck, _⟩ := bind_ok_iff.mp h
  unfold checkQualifiers at hcheck
  split at hcheck
  · cases hcheck
  · rename_i hphysical
    split at hcheck
    · cases hcheck
    · rename_i hstateful
      simp only [hpure, Bool.true_and, decide_eq_true_eq] at hphysical hstateful
      exact ⟨hphysical, Bool.eq_false_iff.mpr hstateful⟩

/-! ## The maps -/

theorem Alike.trans {a b c : Implementation} (h : Alike a b) (h' : Alike b c) : Alike a c := by
  rw [Alike, h', h]

theorem mem_of_lookup {κ β : Type} [BEq κ] [LawfulBEq κ] {entries : List (κ × β)} {key : κ} {b : β}
    (h : entries.lookup key = some b) : (key, b) ∈ entries := by
  obtain ⟨before, after, hentries, _⟩ := List.lookup_eq_some_iff.mp h
  rw [hentries]
  exact List.mem_append_right _ List.mem_cons_self

theorem mem_setAction {actions : List ((String × String) × Instance Action)}
    {coordinate : String × String} {a : Instance Action} {e : (String × String) × Instance Action}
    (h : e ∈ setAction actions coordinate a) :
    e = (coordinate, a) ∨ (e ∈ actions ∧ e.1 ≠ coordinate) := by
  unfold setAction at h
  split at h
  · obtain ⟨e₀, he₀, he⟩ := List.mem_map.mp h
    split at he
    · exact .inl he.symm
    · rename_i hne
      rw [← he]
      exact .inr ⟨he₀, hne⟩
  · rename_i hnone
    rcases List.mem_append.mp h with hold | hnew
    · refine .inr ⟨hold, fun hc => hnone ?_⟩
      exact List.any_eq_true.mpr ⟨e, hold, decide_eq_true hc⟩
    · exact .inl (List.mem_singleton.mp hnew)

theorem mem_forgetKey {actions : List ((String × String) × Instance Action)}
    {e : (String × String) × Instance Action} (h : e ∈ forgetKey actions k) :
    ∃ e₀ ∈ actions, e.1 = e₀.1 ∧ e.2.row = e₀.2.row ∧ (e.2.pk = e₀.2.pk ∨ e.2.pk = none) := by
  obtain ⟨e₀, he₀, he⟩ := List.mem_map.mp h
  refine ⟨e₀, he₀, ?_⟩
  rw [← he]
  split
  · exact ⟨rfl, rfl, .inr rfl⟩
  · exact ⟨rfl, rfl, .inl rfl⟩

theorem pk_of_forgotten {a a₀ : Instance Action} {j : ActionId}
    (h : a.pk = a₀.pk ∨ a.pk = none) (hj : a.pk = some j) : a₀.pk = some j := by
  rcases h with h | h
  · rw [← h, hj]
  · rw [h] at hj
    cases hj

/-- The objects of the maps are as their rows are. -/
structure Mirrors (agentId : AgentId) (agent : Agent) (batch : Batch) : Prop where
  objects : ∀ e ∈ batch.maps.actions, Fits batch.db e.2 ∧
    e.2.row.coordinate = (agent.organization, agent.app, e.1.1, e.1.2)
  apart : ∀ e ∈ batch.maps.actions, ∀ e' ∈ batch.maps.actions, ∀ k, e.2.pk = some k →
    e'.2.pk = some k → e.1 = e'.1
  refs : ∀ interface m, Dict.get? batch.maps.implementations interface = some m →
    m.ref.2.agent = agentId ∧ m.ref.2.interface = interface ∧
      ∃ row, batch.db.implementations.get m.ref.1 = some row ∧ Alike m.ref.2 row

theorem mirrors_prefetch {inputs : List ImplementationInput} :
    Mirrors agentId agent ⟨db, prefetch db agentId agent inputs, []⟩ where
  objects e he := by
    obtain ⟨row, hrow, he⟩ := List.mem_map.mp he
    obtain ⟨hget, hmeets⟩ := Table.mem_select.mp hrow
    simp only [Bool.and_eq_true, decide_eq_true_eq] at hmeets
    rw [← he]
    refine ⟨fun j hj => ?_, ?_⟩
    · cases hj
      refine ⟨Table.lt_next hget, fun row' hget' => ?_⟩
      rw [hget] at hget'
      exact (Option.some.inj hget').symm
    · rw [Action.coordinate, hmeets.1.1.1, hmeets.1.1.2]
  apart e he e' he' k hk hk' := by
    obtain ⟨row, hrow, he⟩ := List.mem_map.mp he
    obtain ⟨row', hrow', he'⟩ := List.mem_map.mp he'
    obtain ⟨hget, _⟩ := Table.mem_select.mp hrow
    obtain ⟨hget', _⟩ := Table.mem_select.mp hrow'
    rw [← he] at hk
    rw [← he'] at hk'
    have hsame : row.1 = row'.1 := (Option.some.inj hk).trans (Option.some.inj hk').symm
    rw [hsame, hget'] at hget
    rw [← he, ← he', Option.some.inj hget]
  refs interface m hm := by
    obtain ⟨row, hrow, he⟩ := List.mem_map.mp (mem_of_lookup hm)
    obtain ⟨hget, hagent⟩ := Table.mem_select.mp hrow
    rw [Prod.mk.injEq] at he
    rw [← he.2]
    exact ⟨of_decide_eq_true hagent, he.1, row.2, hget, rfl⟩

/-! ## A batch -/

theorem Mirrors.looked {batch : Batch} (h : Mirrors agentId agent batch) :
    Looked batch.db agentId agent input
      (batch.maps.actions.lookup (input.definition.key, input.definition.version))
      ((Dict.get? batch.maps.implementations input.interface).map MappedImplementation.ref) where
  fits _ ha := (h.objects _ (mem_of_lookup ha)).1
  coordinate _ ha := (h.objects _ (mem_of_lookup ha)).2
  current ref href := by
    obtain ⟨m, hm, hmref⟩ := Option.map_eq_some_iff.mp href
    rw [← hmref]
    exact h.refs _ m hm

theorem registerMapped_ok {batch batch' : Batch}
    (h : registerMapped H agentId agent batch input = .ok batch') :
    ∃ r, register H batch.db agentId agent input
        (batch.maps.actions.lookup (input.definition.key, input.definition.version))
        ((Dict.get? batch.maps.implementations input.interface).map MappedImplementation.ref) =
          .ok r ∧
      batch'.db = r.db ∧ batch'.created = batch.created ++ [r.implementation.1] ∧
      batch'.maps.implementations =
        batch.maps.implementations.set input.interface ⟨r.implementation, true⟩ ∧
      ∀ e ∈ batch'.maps.actions, ∃ e₀, e.1 = e₀.1 ∧ e.2.row = e₀.2.row ∧
        (e.2.pk = e₀.2.pk ∨ e.2.pk = none) ∧
        (e₀ = ((input.definition.key, input.definition.version), r.action) ∨
          (e₀ ∈ batch.maps.actions ∧
            e₀.1 ≠ (input.definition.key, input.definition.version))) := by
  obtain ⟨r, hr, h⟩ := bind_ok_iff.mp h
  rw [← pure_ok_iff.mp h]
  refine ⟨r, hr, rfl, rfl, rfl, fun e he => ?_⟩
  dsimp only at he
  split at he
  · split at he
    · obtain ⟨e₀, he₀, hkey, hrow, hpk⟩ := mem_forgetKey he
      exact ⟨e₀, hkey, hrow, hpk, mem_setAction he₀⟩
    · exact ⟨e, rfl, rfl, .inl rfl, mem_setAction he⟩
  · exact ⟨e, rfl, rfl, .inl rfl, mem_setAction he⟩

section

variable {batch : Batch} {r : Registered} {e e' : (String × String) × Instance Action}

/-- An object of the maps, after the turn of `input`: the one it registered, or one of another
coordinate that was there. -/
def Entered (input : ImplementationInput) (batch : Batch) (r : Registered)
    (e : (String × String) × Instance Action) : Prop :=
  e = ((input.definition.key, input.definition.version), r.action) ∨
    (e ∈ batch.maps.actions ∧ e.1 ≠ (input.definition.key, input.definition.version))

/-- No other object has the key of the action. -/
theorem Mirrors.pk_ne (hmirrors : Mirrors agentId agent batch)
    (hturned : Turned H batch.db agentId agent input
      (batch.maps.actions.lookup (input.definition.key, input.definition.version)) current r k db₁)
    (he : e ∈ batch.maps.actions)
    (hne : e.1 ≠ (input.definition.key, input.definition.version)) : e.2.pk ≠ some k := by
  intro hk
  have hlt := ((hmirrors.objects e he).1 k hk).1
  by_cases hfound : ∃ a, batch.maps.actions.lookup
      (input.definition.key, input.definition.version) = some a ∧ a.pk ≠ none
  · obtain ⟨a, ha, hpk⟩ := hfound
    obtain ⟨j, hj⟩ := Option.ne_none_iff_exists'.mp hpk
    have hkj := hturned.same a j ha hj
    rw [← hkj] at hj
    exact hne (hmirrors.apart e he _ (mem_of_lookup ha) k hk hj)
  · have hnew := hturned.new fun a ha => by
      by_contra hpk
      exact hfound ⟨a, ha, hpk⟩
    rw [hnew] at hlt
    exact Nat.lt_irrefl _ hlt

/-- The objects fit what the turn leaves. -/
theorem Mirrors.entered_fits (hmirrors : Mirrors agentId agent batch)
    (hturned : Turned H batch.db agentId agent input
      (batch.maps.actions.lookup (input.definition.key, input.definition.version)) current r k db₁)
    (he : Entered input batch r e) :
    Fits r.db e.2 ∧ e.2.row.coordinate = (agent.organization, agent.app, e.1.1, e.1.2) := by
  rcases he with he | ⟨hmem, hne⟩
  · rw [he]
    exact ⟨hturned.fits, hturned.coordinate⟩
  · obtain ⟨hfits, hcoordinate⟩ := hmirrors.objects e hmem
    refine ⟨fun j hj => ?_, hcoordinate⟩
    obtain ⟨hlt, hrow⟩ := hfits j hj
    refine ⟨Nat.lt_of_lt_of_le hlt hturned.grows, fun row hget => hrow row ?_⟩
    have hjk : j ≠ k := fun hjk => hmirrors.pk_ne hturned hmem hne (hjk ▸ hj)
    by_cases hdrop : r.dropped = some j
    · rw [(hturned.gone j hdrop).2.1] at hget
      cases hget
    · have hview := congrArg ActionView.row (hturned.others j hjk hdrop)
      exact hview.symm.trans hget

theorem Mirrors.entered_apart (hmirrors : Mirrors agentId agent batch)
    (hturned : Turned H batch.db agentId agent input
      (batch.maps.actions.lookup (input.definition.key, input.definition.version)) current r k db₁)
    (he : Entered input batch r e) (he' : Entered input batch r e') {j : ActionId}
    (hj : e.2.pk = some j) (hj' : e'.2.pk = some j) : e.1 = e'.1 := by
  rcases he with he | ⟨hmem, hne⟩
  · rcases he' with he' | ⟨hmem', hne'⟩
    · rw [he, he']
    · rw [he] at hj
      have hjk : j = k := Option.some.inj (hj.symm.trans hturned.pk)
      rw [hjk] at hj'
      exact absurd hj' (hmirrors.pk_ne hturned hmem' hne')
  · rcases he' with he' | ⟨hmem', hne'⟩
    · rw [he'] at hj'
      have hjk : j = k := Option.some.inj (hj'.symm.trans hturned.pk)
      rw [hjk] at hj
      exact absurd hj (hmirrors.pk_ne hturned hmem hne)
    · exact hmirrors.apart e hmem e' hmem' j hj hj'

/-- An implementation of another interface is not the one that was registered. -/
theorem Turned.ref_ne (hturned : Turned H db agentId agent input found current r k db₁)
    (hlook : Looked db agentId agent input found current) {ref : ImplementationRef}
    {before : Implementation} (hbefore : db.implementations.get ref.1 = some before)
    (hlike : Alike ref.2 before) (hne : ref.2.interface ≠ input.interface) :
    ref.1 ≠ r.implementation.1 := by
  intro hsame
  rw [hturned.id] at hsame
  cases current with
  | none =>
    have hlt := Table.lt_next hbefore
    rw [hsame] at hlt
    exact Nat.lt_irrefl _ hlt
  | some own =>
    obtain ⟨_, hown, row, hget, hrow⟩ := hlook.current own rfl
    have hid : ref.1 = own.1 := hsame
    rw [hid, hget] at hbefore
    have hrows := Option.some.inj hbefore
    have hinterface : row.interface = own.2.interface := by rw [hrow]
    have hinterface' : before.interface = ref.2.interface := by rw [hlike]
    rw [hrows] at hinterface
    exact hne (hinterface'.symm.trans (hinterface.trans hown))

/-- The implementations that the maps hold after the turn. -/
theorem Mirrors.refs_turned (hmirrors : Mirrors agentId agent batch)
    (hturned : Turned H batch.db agentId agent input found current r k db₁)
    (hlook : Looked batch.db agentId agent input found current)
    {interface : String} {m : MappedImplementation}
    (hm : Dict.get? (batch.maps.implementations.set input.interface ⟨r.implementation, true⟩)
      interface = some m) :
    m.ref.2.agent = agentId ∧ m.ref.2.interface = interface ∧
      ∃ row, r.db.implementations.get m.ref.1 = some row ∧ Alike m.ref.2 row := by
  rw [Dict.get?_set] at hm
  split at hm
  · rename_i hinterface
    cases hm
    obtain ⟨hrow, hagent, _⟩ := hturned.row
    exact ⟨hagent, hrow.trans hinterface.symm, _, hturned.installed, rfl⟩
  · rename_i hinterface
    obtain ⟨hagent, hrow, before, hbefore, halike⟩ := hmirrors.refs interface m hm
    rw [← hrow] at hinterface
    have hne := hturned.ref_ne hlook hbefore halike hinterface
    obtain ⟨row, hget, hlike⟩ := hturned.stay m.ref.1 before hne hbefore
    exact ⟨hagent, hrow, row, hget, halike.trans hlike⟩

end

theorem mirrors_registerMapped {batch batch' : Batch} (hmirrors : Mirrors agentId agent batch)
    (h : registerMapped H agentId agent batch input = .ok batch') :
    Mirrors agentId agent batch' ∧ ∃ r k db₁, batch'.db = r.db ∧
      batch'.created = batch.created ++ [r.implementation.1] ∧
      register H batch.db agentId agent input
        (batch.maps.actions.lookup (input.definition.key, input.definition.version))
        ((Dict.get? batch.maps.implementations input.interface).map MappedImplementation.ref) =
          .ok r ∧
      Turned H batch.db agentId agent input
        (batch.maps.actions.lookup (input.definition.key, input.definition.version))
        ((Dict.get? batch.maps.implementations input.interface).map MappedImplementation.ref)
        r k db₁ := by
  obtain ⟨r, hr, hdb, hcreated, himplementations, hactions⟩ := registerMapped_ok h
  have hlook : Looked batch.db agentId agent input _ _ := hmirrors.looked
  obtain ⟨k, db₁, hturned⟩ := turned_of_register hr hlook
  refine ⟨?_, r, k, db₁, hdb, hcreated, hr, hturned⟩
  refine {
    objects := fun e he => ?_
    apart := fun e he e' he' j hj hj' => ?_
    refs := fun interface m hm => ?_ }
  · obtain ⟨e₀, hkey, hrow, hpk, hsource⟩ := hactions e he
    obtain ⟨hfits, hcoordinate⟩ := hmirrors.entered_fits hturned hsource
    rw [hdb]
    refine ⟨fun j hj => ?_, by rw [hrow, hkey, hcoordinate]⟩
    rw [hrow]
    exact hfits j (pk_of_forgotten hpk hj)
  · obtain ⟨e₀, hkey, _, hpk, hsource⟩ := hactions e he
    obtain ⟨e₀', hkey', _, hpk', hsource'⟩ := hactions e' he'
    rw [hkey, hkey']
    exact hmirrors.entered_apart hturned hsource hsource' (pk_of_forgotten hpk hj)
      (pk_of_forgotten hpk' hj')
  · rw [himplementations] at hm
    rw [hdb]
    exact hmirrors.refs_turned hturned hlook hm

/-- What every turn of the loop keeps, of the maps too, holds at the end. -/
theorem registerBatch_rule {J : Batch → Prop} {inputs : List ImplementationInput} {batch : Batch}
    (hstep : ∀ before input after, inputs = before ++ input :: after → ∀ b c : Batch,
      before.foldlM (registerMapped H agentId agent) ⟨db, prefetch db agentId agent inputs, []⟩ =
        .ok b → registerMapped H agentId agent b input = .ok c → Mirrors agentId agent b →
      J b → J c)
    (hJ : J ⟨db, prefetch db agentId agent inputs, []⟩)
    (h : registerBatch H db agentId agent inputs = .ok batch) : J batch := by
  have hrun : ∀ after before : List ImplementationInput, inputs = before ++ after → ∀ b : Batch,
      before.foldlM (registerMapped H agentId agent) ⟨db, prefetch db agentId agent inputs, []⟩ =
        .ok b → Mirrors agentId agent b → J b →
      after.foldlM (registerMapped H agentId agent) b = .ok batch → J batch := by
    intro after
    induction after with
    | nil =>
      intro _ _ b _ _ hb hafter
      rw [foldlM_nil_iff] at hafter
      rw [← hafter]
      exact hb
    | cons input after ih =>
      intro before hinputs b hbefore hmirrors hb hafter
      obtain ⟨c, hc, hafter⟩ := foldlM_cons_iff.mp hafter
      have hbefore' : (before ++ [input]).foldlM (registerMapped H agentId agent)
          ⟨db, prefetch db agentId agent inputs, []⟩ = .ok c := by
        rw [List.foldlM_append]
        exact bind_ok_iff.mpr ⟨b, hbefore, foldlM_cons_iff.mpr ⟨c, hc, rfl⟩⟩
      exact ih (before ++ [input]) (by rw [hinputs, List.append_assoc]; rfl) c hbefore'
        (mirrors_registerMapped hmirrors hc).1 (hstep before input after hinputs b c hbefore hc
          hmirrors hb) hafter
  exact hrun inputs [] rfl _ rfl mirrors_prefetch hJ h

/-- What every turn of a batch keeps, after the turns before it, holds at the end. -/
theorem registerBatch_induction {I : Database → Prop} {inputs : List ImplementationInput}
    {batch : Batch} (hstep : ∀ before input after, inputs = before ++ input :: after → ∀ b : Batch,
      before.foldlM (registerMapped H agentId agent) ⟨db, prefetch db agentId agent inputs, []⟩ =
        .ok b → ∀ found current r k db₁,
      register H b.db agentId agent input found current = .ok r →
      Looked b.db agentId agent input found current →
      Turned H b.db agentId agent input found current r k db₁ → I b.db → I r.db)
    (hI : I db) (h : registerBatch H db agentId agent inputs = .ok batch) : I batch.db := by
  have hkeeps : ∀ before input after, inputs = before ++ input :: after → ∀ b c : Batch,
      before.foldlM (registerMapped H agentId agent) ⟨db, prefetch db agentId agent inputs, []⟩ =
        .ok b → registerMapped H agentId agent b input = .ok c → Mirrors agentId agent b →
      I b.db → I c.db := by
    intro before input after hinputs b c hbefore hc hmirrors hb
    obtain ⟨_, r, k, db₁, hdb, _, hr, hturned⟩ := mirrors_registerMapped hmirrors hc
    rw [hdb]
    exact hstep before input after hinputs b hbefore _ _ r k db₁ hr hmirrors.looked hturned hb
  exact registerBatch_rule (J := fun b => I b.db) hkeeps hI h

/-- What every registration keeps, a batch keeps. -/
theorem registerBatch_invariant {I : Database → Prop} {inputs : List ImplementationInput}
    {batch : Batch} (hstep : ∀ input ∈ inputs, ∀ db found current r k db₁,
      register H db agentId agent input found current = .ok r →
      Looked db agentId agent input found current →
      Turned H db agentId agent input found current r k db₁ → I db → I r.db)
    (hI : I db) (h : registerBatch H db agentId agent inputs = .ok batch) : I batch.db := by
  refine registerBatch_induction (fun before input after hinputs b _ found current r k db₁ => ?_)
    hI h
  refine hstep input ?_ b.db found current r k db₁
  rw [hinputs]
  exact List.mem_append_right _ List.mem_cons_self

end Registration
end Rekuest
