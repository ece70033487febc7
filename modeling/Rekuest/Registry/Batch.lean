import Rekuest.Registry.Described
import Rekuest.Registry.Repoint

/-!
# Rekuest.Registry.Batch

The loop with the prefetched maps, and the same loop with a lookup for every object.

* `batched`, `sequential`: the two loops, up to the check of the foreign keys.
* `Agrees`: the maps hold what a lookup would find, for all that is still to be declared.
* `Undisturbed`: no entry deletes an action that a later entry declares, or an implementation that
  the interface of a later entry wraps. `Reached`: the entries that the loop comes to.
* `batched_eq_sequential`: the maps agree until then.
-/

namespace Rekuest
namespace Registration

open Fallible
open Interleave (Table)

/-- The unique constraints of the two tables. -/
structure Constrained (db : Database) : Prop where
  actions : Table.UniqueOn Action.coordinate db.actions
  implementations : Table.UniqueOn (fun row : Implementation => (row.agent, row.interface))
    db.implementations

section

variable (H : Hashing) (agentId : AgentId) (agent : Agent)

/-- One turn of the loop without maps. -/
def registerLooked (run : Database × List ImplementationId) (input : ImplementationInput) :
    Except Error (Database × List ImplementationId) := do
  let r ← createImplementation H run.1 agentId agent input
  return (r.db, run.2 ++ [r.implementation.1])

/-- The check at the end of the transaction. -/
def commit (run : Database × List ImplementationId) :
    Except Error (Database × List ImplementationId) :=
  if Database.commits run.1 agentId then .ok run else .error .integrityError

def sequential (db : Database) (inputs : List ImplementationInput) :
    Except Error (Database × List ImplementationId) := do
  let run ← inputs.foldlM (registerLooked H agentId agent) (db, [])
  commit agentId run

def batched (db : Database) (inputs : List ImplementationInput) :
    Except Error (Database × List ImplementationId) := do
  let batch ← registerBatch H db agentId agent inputs
  commit agentId (batch.db, batch.created)

/-- What the registration deletes concerns no later entry: neither the action that the interface
leaves, nor its implementation. -/
def Spares (db : Database) (input : ImplementationInput) (later : ImplementationInput) : Prop :=
  ∀ ref, findImplementation db agentId input.interface = some ref →
    AbandonsAction db agentId agent input →
    (∀ row, db.actions.get ref.2.action = some row → row.coordinate ≠
      (agent.organization, agent.app, later.definition.key, later.definition.version)) ∧
    (later.interface ≠ input.interface → ∀ other,
      findImplementation db agentId later.interface = some other →
        other.2.higherOrderFor ≠ some ref.1)

/-- The entries of a list that the loop comes to before one fails. -/
inductive Reached : List ImplementationInput → Database → ImplementationInput → Prop where
  | here {input rest db} : Reached (input :: rest) db input
  | later {input rest db r later} (hr : createImplementation H db agentId agent input = .ok r)
      (h : Reached rest r.db later) : Reached (input :: rest) db later

/-- Every entry spares those that the loop comes to later. -/
def Undisturbed : List ImplementationInput → Database → Prop
  | [], _ => True
  | input :: rest, db => ∀ r, createImplementation H db agentId agent input = .ok r →
      (∀ later, Reached H agentId agent rest r.db later → Spares agentId agent db input later) ∧
        Undisturbed rest r.db

/-- The maps hold what is found in the database. -/
structure Agrees (rest : List ImplementationInput) (batch : Batch) : Prop where
  constrained : Constrained batch.db
  actions : ∀ input, Reached H agentId agent rest batch.db input →
    batch.maps.actions.lookup (input.definition.key, input.definition.version) =
      findAction batch.db agent input.definition
  implementations : ∀ input, Reached H agentId agent rest batch.db input →
    (Dict.get? batch.maps.implementations input.interface).map MappedImplementation.ref =
      findImplementation batch.db agentId input.interface

end

variable {H : Hashing} {db : Database} {agentId : AgentId} {agent : Agent}
  {input later : ImplementationInput} {rest inputs : List ImplementationInput} {r : Registered}
  {batch : Batch} {k : ActionId} {db₁ : Database}

theorem Reached.mem {inputs : List ImplementationInput}
    (h : Reached H agentId agent inputs db input) : input ∈ inputs := by
  induction h with
  | here => exact List.mem_cons_self
  | later _ _ ih => exact List.mem_cons_of_mem _ ih

/-! ## Lookups -/

theorem findAction_iff (hunique : Table.UniqueOn Action.coordinate db.actions)
    {definition : Definition} {a : Instance Action} :
    findAction db agent definition = some a ↔ ∃ k, a.pk = some k ∧
      db.actions.get k = some a.row ∧ a.row.coordinate =
        (agent.organization, agent.app, definition.key, definition.version) := by
  constructor
  · exact findAction_eq_some
  · rintro ⟨k, hk, hget, hcoordinate⟩
    have hhead := (Table.head?_select_iff
      (p := fun row : Action => row.coordinate =
        (agent.organization, agent.app, definition.key, definition.version)) hunique
      (fun b c hb hc => (of_decide_eq_true hb).trans (of_decide_eq_true hc).symm)).mpr
        ⟨hget, decide_eq_true hcoordinate⟩
    rw [findAction, hhead, Option.map_some, ← hk]

theorem findImplementation_iff (hunique : Table.UniqueOn
    (fun row : Implementation => (row.agent, row.interface)) db.implementations)
    {interface : String} {ref : ImplementationRef} :
    findImplementation db agentId interface = some ref ↔
      db.implementations.get ref.1 = some ref.2 ∧ ref.2.interface = interface ∧
        ref.2.agent = agentId := by
  constructor
  · exact findImplementation_eq_some
  · rintro ⟨hget, hinterface, hagent⟩
    refine (Table.head?_select_iff hunique fun b c hb hc => ?_).mpr ⟨hget, ?_⟩
    · simp only [Bool.and_eq_true, decide_eq_true_eq] at hb hc
      rw [hb.1, hb.2, hc.1, hc.2]
    · simp [hinterface, hagent]

theorem lookup_iff_mem {κ β : Type} [BEq κ] [LawfulBEq κ] {entries : List (κ × β)} {key : κ} {b : β}
    (hsame : ∀ e ∈ entries, ∀ e' ∈ entries, e.1 = e'.1 → e = e') :
    entries.lookup key = some b ↔ (key, b) ∈ entries := by
  constructor
  · exact mem_of_lookup
  · intro hmem
    cases hlookup : entries.lookup key with
    | none =>
      have hne := List.lookup_eq_none_iff.mp hlookup _ hmem
      simp at hne
    | some c =>
      have heq := hsame _ (mem_of_lookup hlookup) _ hmem rfl
      rw [(Prod.mk.inj heq).2]

/-- The prefetched actions are those that a lookup finds. -/
theorem lookup_prefetch (hunique : Table.UniqueOn Action.coordinate db.actions)
    (hinput : input ∈ inputs) :
    (prefetch db agentId agent inputs).actions.lookup
        (input.definition.key, input.definition.version) =
      findAction db agent input.definition := by
  have hentry : ∀ e, e ∈ (prefetch db agentId agent inputs).actions ↔
      ∃ k row, db.actions.get k = some row ∧ row.app = agent.app ∧
        row.organization = agent.organization ∧
        (∃ other ∈ inputs, other.definition.key = row.key) ∧
        (∃ other ∈ inputs, other.definition.version = row.version) ∧
        e = ((row.key, row.version), ⟨some k, row⟩) := by
    intro e
    simp only [prefetch, List.mem_map, Prod.exists, Table.mem_select, Bool.and_eq_true,
      decide_eq_true_eq, List.any_eq_true, and_assoc]
    constructor
    · rintro ⟨k, row, hget, happ, horganization, hkey, hversion, he⟩
      exact ⟨k, row, hget, happ, horganization, hkey, hversion, he.symm⟩
    · rintro ⟨k, row, hget, happ, horganization, hkey, hversion, he⟩
      exact ⟨k, row, hget, happ, horganization, hkey, hversion, he.symm⟩
  ext a
  rw [findAction_iff hunique, lookup_iff_mem, hentry]
  · constructor
    · rintro ⟨k, row, hget, happ, horganization, _, _, he⟩
      rw [Prod.mk.injEq, Prod.mk.injEq] at he
      obtain ⟨⟨hkey, hversion⟩, ha⟩ := he
      rw [ha]
      exact ⟨k, rfl, hget, by rw [Action.coordinate, happ, horganization, hkey, hversion]⟩
    · rintro ⟨k, hk, hget, hcoordinate⟩
      simp only [Action.coordinate, Prod.mk.injEq] at hcoordinate
      obtain ⟨horganization, happ, hkey, hversion⟩ := hcoordinate
      refine ⟨k, a.row, hget, happ, horganization, ⟨input, hinput, hkey.symm⟩,
        ⟨input, hinput, hversion.symm⟩, ?_⟩
      rw [hkey, hversion, ← hk]
  · intro e he e' he' hsame
    obtain ⟨k, row, hget, happ, horganization, _, _, he⟩ := (hentry e).mp he
    obtain ⟨k', row', hget', happ', horganization', _, _, he'⟩ := (hentry e').mp he'
    rw [he, he', Prod.mk.injEq] at hsame
    have hkk : k = k' := hunique k k' row row' hget hget' (by
      rw [Action.coordinate, Action.coordinate, happ, horganization, hsame.1, hsame.2, happ',
        horganization'])
    rw [hkk, hget'] at hget
    rw [he, he', hkk, Option.some.inj hget]

/-- So are the prefetched implementations. -/
theorem get?_prefetch (hunique : Table.UniqueOn
    (fun row : Implementation => (row.agent, row.interface)) db.implementations)
    {interface : String} :
    (Dict.get? (prefetch db agentId agent inputs).implementations interface).map
        MappedImplementation.ref = findImplementation db agentId interface := by
  have hentry : ∀ e, e ∈ (prefetch db agentId agent inputs).implementations ↔
      ∃ k row, db.implementations.get k = some row ∧ row.agent = agentId ∧
        e = (row.interface, ⟨(k, row), false⟩) := by
    intro e
    simp only [prefetch, List.mem_map, Prod.exists, Table.mem_select, decide_eq_true_eq, and_assoc]
    constructor
    · rintro ⟨k, row, hget, hagent, he⟩
      exact ⟨k, row, hget, hagent, he.symm⟩
    · rintro ⟨k, row, hget, hagent, he⟩
      exact ⟨k, row, hget, hagent, he.symm⟩
  ext ref
  rw [findImplementation_iff hunique, Option.map_eq_some_iff]
  constructor
  · rintro ⟨m, hm, href⟩
    obtain ⟨k, row, hget, hagent, he⟩ := (hentry _).mp (mem_of_lookup hm)
    rw [Prod.mk.injEq] at he
    rw [← href, he.2]
    exact ⟨hget, he.1.symm, hagent⟩
  · rintro ⟨hget, hinterface, hagent⟩
    refine ⟨⟨ref, false⟩, (lookup_iff_mem fun e he e' he' hsame => ?_).mpr
      ((hentry _).mpr ⟨ref.1, ref.2, hget, hagent, by rw [hinterface]⟩), rfl⟩
    obtain ⟨k, row, hget, hagent, he⟩ := (hentry e).mp he
    obtain ⟨k', row', hget', hagent', he'⟩ := (hentry e').mp he'
    rw [he, he'] at hsame
    have hkk : k = k' :=
      hunique k k' row row' hget hget' (Prod.ext (hagent.trans hagent'.symm) hsame)
    rw [hkk, hget'] at hget
    rw [he, he', hkk, Option.some.inj hget]

/-! ## One turn -/

section

variable (h : createImplementation H db agentId agent input = .ok r)

include h

/-- The row of another interface is the one it was, unless it wraps what was deleted. -/
theorem other_interface_kept {j : ImplementationId} (hj : j ≠ r.implementation.1)
    (hfree : ∀ ref before, findImplementation db agentId input.interface = some ref →
      AbandonsAction db agentId agent input → db.implementations.get j = some before →
      before.higherOrderFor ≠ some ref.1) :
    r.db.implementations.get j = db.implementations.get j := by
  have hkey := createImplementation_key h
  obtain ⟨db₁, db₂, _, _, hframe, hdropped, hinstalled⟩ := createImplementation_ok h
  have hbefore := (actionFrame hframe).implementations
  rw [hinstalled.others j hj]
  rcases dropped_cases hframe hdropped with ⟨_, hdb⟩ | ⟨ref, habandons, href, hdb, _⟩
  · rw [hdb, hbefore]
  · rw [implementationKey, href, Option.map_some, Option.getD_some] at hkey
    have hget := (findImplementation_eq_some href).1
    obtain ⟨ref', href', _, hcount⟩ := id habandons
    rw [href] at href'
    cases href'
    have hreached : ∀ i, (reached db₁ ref).implementation i = true ↔ i = ref.1 := by
      intro i
      refine reached_implementation (by rw [hbefore, hget]) ?_
      rw [implementationCount, hbefore]
      exact hcount
    have hown : (reached db₁ ref).implementation j = false := by
      rw [hkey] at hj
      exact Bool.eq_false_iff.mpr fun htrue => hj ((hreached j).mp htrue)
    rw [hdb]
    show (((db₁.implementations.get j).filter fun _ => !(reached db₁ ref).implementation j).map
      fun row => { row with higherOrderFor := row.higherOrderFor.filter fun i =>
        !(reached db₁ ref).implementation i }) = _
    rw [hbefore, hown]
    cases hrow : db.implementations.get j with
    | none => rfl
    | some before =>
      have hlink : (before.higherOrderFor.filter fun i => !(reached db₁ ref).implementation i) =
          before.higherOrderFor := by
        cases hwraps : before.higherOrderFor with
        | none => rfl
        | some i =>
          have hne : i ≠ ref.1 := by
            intro hi
            exact hfree ref before href habandons hrow (by rw [hwraps, hi])
          have hfalse := Bool.eq_false_iff.mpr fun htrue => hne ((hreached i).mp htrue)
          rw [Option.filter_some, hfalse]
          rfl
      rw [Bool.not_false, Option.filter_some, if_pos rfl, Option.map_some, hlink]

/-- What is deleted is the action that the interface leaves. -/
theorem abandons_of_dropped {j : ActionId} (hj : r.dropped = some j) :
    AbandonsAction db agentId agent input ∧ ∃ ref,
      findImplementation db agentId input.interface = some ref ∧ ref.2.action = j := by
  obtain ⟨db₁, db₂, _, _, hframe, hdropped, _⟩ := createImplementation_ok h
  obtain ⟨ref, href, haction, _, _⟩ := hdropped.only hj
  rcases dropped_cases hframe hdropped with ⟨hkept, _⟩ | ⟨_, habandons, _⟩
  · have hnone := (hdropped.kept fun hyes =>
      hkept ((Abandons.congr (actionFrame hframe).implementations).mp hyes)).2
    rw [hj] at hnone
    cases hnone
  · exact ⟨habandons, ref, href, haction⟩

/-- A registration keeps the unique constraints. -/
theorem constrained_createImplementation (hdb : Constrained db) : Constrained r.db := by
  have hlook : Looked db agentId agent input _ _ := looked_createImplementation
  obtain ⟨k, db₁, hturned⟩ := turned_of_register h hlook
  obtain ⟨_, _, _, _, _, _, _, hothers⟩ := hturned.acted.facts hlook hturned.pk
  refine ⟨coordinates_of_turned hturned hdb.actions hothers, fun i j a b hi hj hkey => ?_⟩
  obtain ⟨hagents, hinterfaces⟩ := Prod.mk.inj hkey
  have hback : ∀ l c, l ≠ r.implementation.1 → r.db.implementations.get l = some c →
      ∃ before, db.implementations.get l = some before ∧ before.agent = c.agent ∧
        before.interface = c.interface := by
    intro l c hl hget
    obtain ⟨before, hbefore, halike⟩ := hturned.implementations l c hl hget
    exact ⟨before, hbefore, by rw [halike], by rw [halike]⟩
  by_cases hi' : i = r.implementation.1
  · by_cases hj' : j = r.implementation.1
    · rw [hi', hj']
    · rw [hi', hturned.installed] at hi
      cases hi
      exact absurd hinterfaces.symm (hturned.alone j b hj' hj hagents.symm).1
  · by_cases hj' : j = r.implementation.1
    · rw [hj', hturned.installed] at hj
      cases hj
      exact absurd hinterfaces (hturned.alone i a hi' hi hagents).1
    · obtain ⟨a', ha, haagent, hainterface⟩ := hback i a hi' hi
      obtain ⟨b', hb, hbagent, hbinterface⟩ := hback j b hj' hj
      refine hdb.implementations i j a' b' ha hb (Prod.ext ?_ ?_)
      · exact haagent.trans (hagents.trans hbagent.symm)
      · exact hainterface.trans (hinterfaces.trans hbinterface.symm)

end

/-- The maps and the lookups hand the same objects to the registration. -/
theorem register_of_agrees (h : Agrees H agentId agent (input :: rest) batch) :
    register H batch.db agentId agent input
        (batch.maps.actions.lookup (input.definition.key, input.definition.version))
        ((Dict.get? batch.maps.implementations input.interface).map MappedImplementation.ref) =
      createImplementation H batch.db agentId agent input := by
  rw [createImplementation, h.actions input .here, h.implementations input .here]

theorem lookup_setAction {actions : List ((String × String) × Instance Action)}
    {coordinate other : String × String} {a : Instance Action} :
    (setAction actions coordinate a).lookup other =
      if other = coordinate then some a else actions.lookup other := by
  unfold setAction
  split
  · rename_i hany
    induction actions with
    | nil => cases hany
    | cons e actions ih =>
      rw [List.map_cons, List.lookup_cons, List.lookup_cons]
      by_cases he : e.1 = coordinate
      · rw [if_pos he]
        by_cases hother : other = coordinate
        · simp [hother]
        · rw [if_neg hother, he, beq_false_of_ne hother]
          by_cases hrest : (actions.any fun e => e.1 = coordinate) = true
          · rw [ih hrest, if_neg hother]
          · have hsame : (actions.map fun e => if e.1 = coordinate then (coordinate, a) else e) =
                actions := by
              refine (List.map_congr_left fun e he => if_neg fun hc => hrest ?_).trans
                (List.map_id _)
              exact List.any_eq_true.mpr ⟨e, he, decide_eq_true hc⟩
            rw [hsame]
      · rw [if_neg he]
        have hrest : (actions.any fun e => e.1 = coordinate) = true := by
          simpa [he] using hany
        rw [ih hrest]
        by_cases hother : other = coordinate
        · rw [if_pos hother, if_pos hother, hother, beq_false_of_ne fun hc => he hc.symm]
        · rw [if_neg hother, if_neg hother]
  · rename_i hnone
    rw [List.lookup_append]
    by_cases hother : other = coordinate
    · have hmissing : actions.lookup coordinate = none := by
        refine List.lookup_eq_none_iff.mpr fun e he => ?_
        have hne : e.1 ≠ coordinate := fun hc =>
          hnone (List.any_eq_true.mpr ⟨e, he, decide_eq_true hc⟩)
        simpa using fun hc => hne hc.symm
      rw [if_pos hother, hother, hmissing]
      simp
    · rw [if_neg hother, List.lookup_cons, beq_false_of_ne hother]
      simp

theorem lookup_forgetKey {actions : List ((String × String) × Instance Action)}
    {coordinate : String × String}
    (hkept : ∀ a, actions.lookup coordinate = some a → a.pk ≠ some k) :
    (forgetKey actions k).lookup coordinate = actions.lookup coordinate := by
  induction actions with
  | nil => rfl
  | cons e actions ih =>
    have hkey : (if e.2.pk = some k then (e.1, (⟨none, e.2.row⟩ : Instance Action)) else e).1 =
        e.1 := by
      split <;> rfl
    rw [forgetKey, List.map_cons, List.lookup_cons, List.lookup_cons, hkey]
    rw [List.lookup_cons] at hkept
    cases hc : coordinate == e.1 with
    | true =>
      rw [hc] at hkept
      simp only [if_neg (hkept e.2 rfl)]
    | false =>
      rw [hc] at hkept
      exact ih hkept

/-- What a lookup of a later entry finds is what it found. -/
theorem findAction_later (hdb : Constrained db)
    (h : createImplementation H db agentId agent input = .ok r)
    (hspares : Spares agentId agent db input later)
    (hne : (later.definition.key, later.definition.version) ≠
      (input.definition.key, input.definition.version)) :
    findAction r.db agent later.definition = findAction db agent later.definition := by
  have hlook : Looked db agentId agent input _ _ := looked_createImplementation
  obtain ⟨k, db₁, hturned⟩ := turned_of_register h hlook
  have hafter := (constrained_createImplementation h hdb).actions
  have hown : ∀ row : Action, row.coordinate =
      (agent.organization, agent.app, later.definition.key, later.definition.version) →
      row.coordinate ≠
        (agent.organization, agent.app, input.definition.key, input.definition.version) := by
    intro row hrow hsame
    rw [hrow] at hsame
    simp only [Prod.mk.injEq, true_and] at hsame
    exact hne (Prod.ext hsame.1 hsame.2)
  ext a
  rw [findAction_iff hafter, findAction_iff hdb.actions]
  refine exists_congr fun j => and_congr_right fun _ => and_congr_left fun hcoordinate => ?_
  constructor
  · intro hget
    have hj : j ≠ k := by
      intro hj
      rw [hj] at hget
      rw [(hturned.own_row hget).1] at hcoordinate
      exact hown _ hcoordinate hturned.coordinate
    exact (hturned.other_row hj hget).1
  · intro hget
    have hj : j ≠ k := by
      intro hj
      cases hfound : findAction db agent input.definition with
      | none =>
        have hnew := hturned.new fun b hb => (by rw [hfound] at hb; cases hb)
        have hlt := Table.lt_next hget
        rw [hj, hnew] at hlt
        exact Nat.lt_irrefl _ hlt
      | some b =>
        obtain ⟨i, hi, hgeti, hcoordinatei⟩ := findAction_eq_some hfound
        rw [hj, hturned.same b i hfound hi, hgeti] at hget
        rw [← Option.some.inj hget] at hcoordinate
        exact hown _ hcoordinate hcoordinatei
    have hdrop : r.dropped ≠ some j := by
      intro hdrop
      obtain ⟨habandons, ref, href, haction⟩ := abandons_of_dropped h hdrop
      rw [← haction] at hget
      exact (hspares ref href habandons).1 a.row hget hcoordinate
    have hview : r.db.actions.get j = db.actions.get j :=
      (congrArg ActionView.row (hturned.others j hj hdrop) :)
    rw [hview, hget]

/-- The action of the registration is found from then on. -/
theorem findAction_self (hdb : Constrained db)
    (h : createImplementation H db agentId agent input = .ok r)
    (hsame : (later.definition.key, later.definition.version) =
      (input.definition.key, input.definition.version)) :
    findAction r.db agent later.definition = some r.action := by
  have hlook : Looked db agentId agent input _ _ := looked_createImplementation
  obtain ⟨k, db₁, hturned⟩ := turned_of_register h hlook
  have hafter := (constrained_createImplementation h hdb).actions
  have hget₁ : db₁.actions.get k = some r.action.row := by
    cases hturned.acted with
    | rewritten hacted => exact hacted.settled.get
    | kept _ hacted => exact hacted.settled.get
    | stale hacted =>
      obtain ⟨i, hi, hget, _⟩ := findAction_eq_some hacted.found
      rw [hacted.gone i hi] at hget
      cases hget
  have hview : r.db.actions.get k = db₁.actions.get k := (congrArg ActionView.row hturned.own :)
  obtain ⟨hkey, hversion⟩ := Prod.mk.inj hsame
  refine (findAction_iff hafter).mpr ⟨k, hturned.pk, hview.trans hget₁, ?_⟩
  rw [hkey, hversion, hturned.coordinate]

theorem findImplementation_later (hdb : Constrained db)
    (h : createImplementation H db agentId agent input = .ok r)
    (hspares : Spares agentId agent db input later) (hne : later.interface ≠ input.interface) :
    findImplementation r.db agentId later.interface =
      findImplementation db agentId later.interface := by
  have hlook : Looked db agentId agent input _ _ := looked_createImplementation
  obtain ⟨k, db₁, hturned⟩ := turned_of_register h hlook
  have hafter := (constrained_createImplementation h hdb).implementations
  have hkept : ∀ ref : ImplementationRef, ref.1 ≠ r.implementation.1 →
      (∀ before, db.implementations.get ref.1 = some before →
        before.interface = later.interface ∧ before.agent = agentId) →
      r.db.implementations.get ref.1 = db.implementations.get ref.1 := by
    intro ref href hof
    refine other_interface_kept h href fun wrapped before hwrapped habandons hbefore => ?_
    obtain ⟨hinterface, hagent⟩ := hof before hbefore
    exact (hspares wrapped hwrapped habandons).2 hne (ref.1, before)
      ((findImplementation_iff hdb.implementations).mpr ⟨hbefore, hinterface, hagent⟩)
  ext ref
  rw [findImplementation_iff hafter, findImplementation_iff hdb.implementations]
  refine and_congr_left fun hof => ?_
  obtain ⟨hinterface, hagent⟩ := hof
  constructor
  · intro hget
    have hid : ref.1 ≠ r.implementation.1 := by
      intro hid
      rw [hid, hturned.installed] at hget
      rw [← Option.some.inj hget, hturned.row.1] at hinterface
      exact hne hinterface.symm
    obtain ⟨before, hbefore, halike⟩ := hturned.implementations ref.1 ref.2 hid hget
    have hsame := hkept ref hid fun before' hbefore' => by
      rw [hbefore] at hbefore'
      cases hbefore'
      rw [halike] at hinterface hagent
      exact ⟨hinterface, hagent⟩
    exact hsame.symm.trans hget
  · intro hget
    have hid : ref.1 ≠ r.implementation.1 := by
      intro hid
      rw [hturned.id] at hid
      cases hfound : findImplementation db agentId input.interface with
      | none =>
        have hlt := Table.lt_next hget
        rw [hid, hfound] at hlt
        exact Nat.lt_irrefl _ hlt
      | some own =>
        obtain ⟨hown, howninterface, _⟩ := findImplementation_eq_some hfound
        have hsame : ref.1 = own.1 := by
          rw [hid, hfound]
          rfl
        rw [hsame, hown] at hget
        rw [← Option.some.inj hget, howninterface] at hinterface
        exact hne hinterface.symm
    have hsame := hkept ref hid fun before' hbefore' => by
      rw [hget] at hbefore'
      cases hbefore'
      exact ⟨hinterface, hagent⟩
    exact hsame.trans hget

theorem findImplementation_self (hdb : Constrained db)
    (h : createImplementation H db agentId agent input = .ok r) :
    findImplementation r.db agentId input.interface = some r.implementation := by
  have hlook : Looked db agentId agent input _ _ := looked_createImplementation
  obtain ⟨k, db₁, hturned⟩ := turned_of_register h hlook
  have hafter := (constrained_createImplementation h hdb).implementations
  exact (findImplementation_iff hafter).mpr
    ⟨hturned.installed, hturned.row.1, hturned.row.2.1⟩

/-! ## The loops -/

/-- A turn does the same with the maps as without, and leaves maps that agree. -/
theorem registerMapped_agrees (h : Agrees H agentId agent (input :: rest) batch)
    (hspares : ∀ r, createImplementation H batch.db agentId agent input = .ok r →
      ∀ later, Reached H agentId agent rest r.db later →
        Spares agentId agent batch.db input later) :
    (registerMapped H agentId agent batch input).map (fun b => (b.db, b.created)) =
      registerLooked H agentId agent (batch.db, batch.created) input ∧
    ∀ batch', registerMapped H agentId agent batch input = .ok batch' →
      Agrees H agentId agent rest batch' ∧
        ∃ r, createImplementation H batch.db agentId agent input = .ok r ∧ batch'.db = r.db := by
  have hregister := @register_of_agrees H agentId agent input rest batch h
  constructor
  · unfold registerMapped registerLooked
    dsimp only
    rw [hregister]
    cases createImplementation H batch.db agentId agent input <;> rfl
  · intro batch' hok
    obtain ⟨r, hr, hok⟩ := bind_ok_iff.mp hok
    rw [hregister] at hr
    rw [← pure_ok_iff.mp hok]
    refine ⟨?_, r, hr, rfl⟩
    have hset : ∀ later, Reached H agentId agent rest r.db later →
        (setAction batch.maps.actions (input.definition.key, input.definition.version)
          r.action).lookup (later.definition.key, later.definition.version) =
          findAction r.db agent later.definition := by
      intro later hlater
      rw [lookup_setAction]
      split
      · rename_i hsame
        exact (findAction_self h.constrained hr hsame).symm
      · rename_i hne
        rw [findAction_later h.constrained hr (hspares r hr later hlater) hne]
        exact h.actions later (.later hr hlater)
    refine ⟨constrained_createImplementation hr h.constrained, fun later hlater => ?_,
      fun later hlater => ?_⟩
    · dsimp only
      split
      · rename_i k hdropped
        split
        · rw [lookup_forgetKey, hset later hlater]
          intro a ha hpk
          rw [hset later hlater] at ha
          obtain ⟨j, hj, hget, _⟩ := findAction_eq_some ha
          rw [hpk] at hj
          cases hj
          have hlook : Looked batch.db agentId agent input _ _ := looked_createImplementation
          obtain ⟨_, _, hturned⟩ := turned_of_register hr hlook
          rw [(hturned.gone k hdropped).2.1] at hget
          cases hget
        · exact hset later hlater
      · exact hset later hlater
    · dsimp only
      rw [Dict.get?_set]
      split
      · rename_i hsame
        rw [hsame]
        exact (findImplementation_self h.constrained hr).symm
      · rename_i hne
        rw [findImplementation_later h.constrained hr (hspares r hr later hlater) hne]
        exact h.implementations later (.later hr hlater)

/-- Until an entry deletes what a later one needs, the maps make no difference: both loops leave
the same rows, or raise the same error. -/
theorem batched_eq_sequential (hdb : Constrained db)
    (hundisturbed : Undisturbed H agentId agent inputs db) :
    batched H agentId agent db inputs = sequential H agentId agent db inputs := by
  have hprefetched : Agrees H agentId agent inputs ⟨db, prefetch db agentId agent inputs, []⟩ := {
    constrained := hdb
    actions := fun input hinput => lookup_prefetch hdb.actions hinput.mem
    implementations := fun input _ => get?_prefetch hdb.implementations }
  have hloops : (registerBatch H db agentId agent inputs).map (fun b => (b.db, b.created)) =
      inputs.foldlM (registerLooked H agentId agent) (db, []) := by
    refine foldlM_simulates (fun rest batch => Agrees H agentId agent rest batch ∧
      Undisturbed H agentId agent rest batch.db) (fun input rest batch hI => ?_)
      ⟨hprefetched, hundisturbed⟩
    obtain ⟨hagrees, hlater⟩ := hI
    obtain ⟨hsame, hkeep⟩ := registerMapped_agrees hagrees fun r hr => (hlater r hr).1
    refine ⟨hsame, fun batch' hok => ?_⟩
    obtain ⟨hagrees', r, hr, hbatch⟩ := hkeep batch' hok
    exact ⟨hagrees', hbatch ▸ (hlater r hr).2⟩
  unfold batched sequential
  rw [← hloops]
  cases registerBatch H db agentId agent inputs <;> rfl

/-- A second interface, then the first one once more. -/
theorem scan_added_alike :
    batched naming 1 microscope acquiring [declare "scan" "scan", declare "acquire" "acquire"] =
      sequential naming 1 microscope acquiring
        [declare "scan" "scan", declare "acquire" "acquire"] := by
  have hone : ∀ j a, acquiring.actions.get j = some a → j = 1 := by
    intro j a hj
    have hlt : j < 2 := Table.lt_next hj
    obtain rfl | rfl : j = 0 ∨ j = 1 := by omega
    · cases hj
    · rfl
  have hone' : ∀ j a, acquiring.implementations.get j = some a → j = 1 := by
    intro j a hj
    have hlt : j < 2 := Table.lt_next hj
    obtain rfl | rfl : j = 0 ∨ j = 1 := by omega
    · cases hj
    · rfl
  have hconstrained : Constrained acquiring :=
    ⟨fun j k a b hj hk _ => (hone j a hj).trans (hone k b hk).symm,
      fun j k a b hj hk _ => (hone' j a hj).trans (hone' k b hk).symm⟩
  refine batched_eq_sequential hconstrained fun r _ => ⟨fun later _ ref href => ?_, fun r' _ => ?_⟩
  · have hnone : findImplementation acquiring 1 "scan" = none := rfl
    exact absurd (href.symm.trans hnone) (by simp)
  · exact ⟨fun later hlater => absurd hlater.mem List.not_mem_nil, trivial⟩

/-- The action that the first entry leaves is deleted, and the second declares it. With the maps
the registration fails. -/
theorem moved_action_fails_batched :
    let inputs := [declare "acquire" "scan", declare "snap" "acquire"]
    batched naming 1 microscope acquiring inputs = .error .integrityError ∧
      ∃ run, sequential naming 1 microscope acquiring inputs = .ok run := by
  exact ⟨rfl, _, rfl⟩

end Registration
end Rekuest
