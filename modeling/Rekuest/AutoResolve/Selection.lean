import Mathlib.Order.Bounds.Basic
import Rekuest.AutoResolve
import Rekuest.Matching.Consolidated

/-!
# Rekuest.AutoResolve.Selection

The agent that is selected for a dependency, said without the queries.

* `Satisfies`: an action satisfies a demand. `CanServe`: an agent can serve a dependency.
* `selectAgent_ok`: the actions of each slot are those that satisfy its demand, and the agent is the
  first that can serve. `selectAgent_error`: what is raised instead.
-/

namespace Rekuest

open Fallible Interleave Managers Sql

namespace AutoResolve

section

variable (V : Server) (db : Database) (organization : Organization)

/-- The action is one of the organization that satisfies the demand. -/
def Satisfies (demand : ActionDemandInput) (action : ActionId) : Prop :=
  ∃ row ∈ V.tables "facade_action", OfOrganization row (some (.int organization.pk)) ∧
    demand.Selects V.pathMatch V.tables row ∧ row "id" = some (.int action)

/-- The demand of a slot. A slot without one has an empty one. -/
def demandOf (d : ActionDemand) : ActionDemandInput := (V.demand d).getD {}

/-- The agent is of the organization, and has a state for every state demand. -/
structure OnAgent (dependency : Dependency) (agent : AgentId) : Prop where
  member : ∃ a, db.agents.get agent = some a ∧ a.organization = organization
  states : ∀ p ∈ stateDemandsOf V dependency, ∃ filters,
    stateDemandStateFilters (postgres V.pathMatch) V.tables V.stateDemandText p.2 = .ok filters ∧
      ∃ id state, db.states.get id = some state ∧ state.agent = agent ∧
        filters.keeps V.tables state = true

/-- The agent can serve the dependency: besides, it has an implementation for every slot. -/
structure CanServe (dependency : Dependency) (agent : AgentId) : Prop
    extends OnAgent V db organization dependency agent where
  offered : ∀ d ∈ dependency.actionDemands, ∃ c i, db.implementations.get c = some i ∧
    i.agent = agent ∧ Satisfies V organization (demandOf V d) i.action

/-- The agent that serves the dependency: the first that can. -/
def Serves (dependency : Dependency) (agent : AgentId) : Prop :=
  IsLeast {a | CanServe V db organization dependency a} agent

/-- No demand of the dependency nests its matches too deep. -/
def DemandsFit (dependency : Dependency) : Prop :=
  ∀ (k : Nat) (d : ActionDemand), dependency.actionDemands[k]? = some d → (demandOf V d).Fits k

/-- The ids of the slot are those of the actions that satisfy its demand. -/
def Matched (d : ActionDemand) (slot : String × List (Option SqlValue)) : Prop :=
  slot.1 = d.key ∧
    ∀ action, inIds slot.2 action = true ↔ Satisfies V organization (demandOf V d) action

end

section

variable {V : Server} {db : Database} {organization : Organization} {dependency : Dependency}

theorem same_int_iff {x : Option SqlValue} {n : Nat} :
    same SqlValue.equal x (some (.int n)) = some true ↔ x = some (.int n) := by
  cases x with
  | none => simp [same]
  | some v => cases v <;> simp [same, SqlValue.equal]

theorem inIds_iff_mem {ids : List (Option SqlValue)} {n : Nat} :
    inIds ids n = true ↔ some (SqlValue.int n) ∈ ids := by
  rw [inIds_iff]
  constructor
  · rintro ⟨x, hx, hsame⟩
    rw [← same_int_iff.mp hsame]
    exact hx
  · intro h
    exact ⟨_, h, same_int_iff.mpr rfl⟩

theorem mem_demandIds {d : ActionDemandInput} {action : ActionId} :
    some (SqlValue.int action) ∈ demandIds V.pathMatch V.tables (some (.int organization.pk)) d ↔
      Satisfies V organization d action := by
  simp only [demandIds, List.mem_map, List.mem_filter, decide_eq_true_eq, Satisfies, and_assoc]

/-- The slots of a dependency, with the actions that satisfy their demands. -/
theorem slotsOf_ok {slots : List (String × List (Option SqlValue))}
    (hfits : DemandsFit V dependency) (h : slotsOf V organization dependency = .ok slots) :
    List.Forall₂ (Matched V organization) dependency.actionDemands slots := by
  obtain ⟨perDemandIds, hids, hmap⟩ := bind_ok_iff.mp h
  have hplaces : ∀ (k : Nat) (d : ActionDemandInput),
      (dependency.actionDemands.map fun d => (V.demand d).getD {})[k]? = some d → d.Fits k := by
    intro k d hd
    rw [List.getElem?_map] at hd
    obtain ⟨d', hd', rfl⟩ := Option.map_eq_some_iff.mp hd
    exact hfits k d' hd'
  obtain ⟨hlength, hget⟩ := results_getElem? V.unionOrder_perm hplaces (raising_ok_iff.mp hids)
  rw [List.length_map] at hlength
  clear h hids hplaces hfits
  generalize dependency.actionDemands = demands at hlength hget hmap ⊢
  induction demands generalizing perDemandIds slots with
  | nil =>
    rw [List.zip_nil_left] at hmap
    cases hmap
    exact .nil
  | cons d demands ih =>
    cases perDemandIds with
    | nil => cases hlength
    | cons ids perDemandIds =>
      rw [List.zip_cons_cons, mapM_ok_iff, List.forall₂_cons_left_iff] at hmap
      obtain ⟨slot, slots, hslot, hslots, rfl⟩ := hmap
      refine .cons ?_ (ih perDemandIds (Nat.succ.inj hlength) ?_ (mapM_ok_iff.mpr hslots))
      · obtain ⟨_, hfirst, hperm⟩ := hget 0 _ rfl
        cases hfirst
        unfold slotIds at hslot
        split at hslot
        · cases hslot
        · cases hslot
          refine ⟨rfl, fun action => ?_⟩
          rw [inIds_iff_mem, hperm.mem_iff]
          exact mem_demandIds
      · intro k d' hd'
        exact hget (k + 1) d' hd'

theorem stateFilter_ok {p : StateDemand × StateDemandInput} {filters : StateFilters}
    (h : stateFilter V p = .ok filters) :
    stateDemandStateFilters (postgres V.pathMatch) V.tables V.stateDemandText p.2 =
      .ok filters := by
  obtain ⟨filters', hfilters, hrest⟩ := bind_ok_iff.mp h
  split at hrest
  · cases hrest
  · cases hrest
    exact hfilters

/-- An agent can serve the dependency exactly where the queries for it give something. -/
theorem isSatisfying_iff {slots : List (String × List (Option SqlValue))}
    {filters : List StateFilters} {agent : AgentId}
    (hslots : List.Forall₂ (Matched V organization) dependency.actionDemands slots)
    (hfilters : (stateDemandsOf V dependency).mapM (stateFilter V) = .ok filters) :
    ((∃ a, db.agents.get agent = some a ∧ a.organization = organization) ∧
        isSatisfying V db slots filters agent = true) ↔
      CanServe V db organization dependency agent := by
  have hstates := mapM_ok_iff.mp hfilters
  have hsome : ∀ {α : Type} {t : Table α} {p : Nat → α → Bool},
      (!(t.select p).isEmpty) = true ↔ ∃ k a, t.get k = some a ∧ p k a = true := by
    intro α t p
    rw [Bool.not_eq_true', List.isEmpty_eq_false_iff_exists_mem]
    simp only [Prod.exists, Table.mem_select]
  simp only [isSatisfying, Bool.and_eq_true, List.all_eq_true, hsome, offers, decide_eq_true_eq]
  constructor
  · rintro ⟨hmember, hoffers, hkeeps⟩
    refine ⟨⟨hmember, fun p hp => ?_⟩, fun d hd => ?_⟩
    · obtain ⟨f, hf, hfilter⟩ := mem_left_of_forall₂ hstates hp
      obtain ⟨id, state, hget, hagent, hkeep⟩ := hkeeps f hf
      exact ⟨f, stateFilter_ok hfilter, id, state, hget, hagent, hkeep⟩
    · obtain ⟨slot, hslot, _, hids⟩ := mem_left_of_forall₂ hslots hd
      obtain ⟨c, i, hget, hin, hagent⟩ := hoffers slot hslot
      exact ⟨c, i, hget, hagent, (hids i.action).mp hin⟩
  · rintro ⟨⟨hmember, hstate⟩, hoffered⟩
    refine ⟨hmember, fun slot hslot => ?_, fun f hf => ?_⟩
    · obtain ⟨d, hd, _, hids⟩ := mem_right_of_forall₂ hslots hslot
      obtain ⟨c, i, hget, hagent, hsatisfies⟩ := hoffered d hd
      exact ⟨c, i, hget, (hids i.action).mpr hsatisfies, hagent⟩
    · obtain ⟨p, hp, hfilter⟩ := mem_right_of_forall₂ hstates hf
      obtain ⟨f', hf', id, state, hget, hagent, hkeep⟩ := hstate p hp
      rw [stateFilter_ok hfilter] at hf'
      cases hf'
      exact ⟨id, state, hget, hagent, hkeep⟩

/-- What is selected: the slots with their actions, and the agent that serves the dependency. -/
theorem selectAgent_ok {selection : Selection} (hfits : DemandsFit V dependency)
    (h : selectAgent V db organization dependency = .ok selection) :
    List.Forall₂ (Matched V organization) dependency.actionDemands selection.slots ∧
      Serves V db organization dependency selection.agent := by
  obtain ⟨slots, hslots, h⟩ := bind_ok_iff.mp h
  obtain ⟨filters, hfilters, h⟩ := bind_ok_iff.mp h
  dsimp only at h
  split at h
  · cases h
  · rename_i agent hagent
    cases h
    have hmatched := slotsOf_ok hfits hslots
    obtain ⟨hget, hkept⟩ := Table.mem_select.mp (List.mem_of_mem_head? hagent)
    simp only [Bool.and_eq_true, decide_eq_true_eq] at hkept
    refine ⟨hmatched, (isSatisfying_iff hmatched hfilters).mp ⟨⟨_, hget, hkept.1⟩, hkept.2⟩,
      fun k hk => ?_⟩
    obtain ⟨⟨a, ha, horganization⟩, hall⟩ := (isSatisfying_iff hmatched hfilters).mpr hk
    refine Table.head_select_le hagent ha ?_
    simp only [Bool.and_eq_true, decide_eq_true_eq]
    exact ⟨horganization, hall⟩

end

end AutoResolve
end Rekuest
