import Rekuest.AutoResolve
import Rekuest.Interleave.May
import Rekuest.Matching.Demands
import Rekuest.Tasks.Assign

/-!
# Rekuest.Tasks.Binding

The agents and the implementations that an assign binds to the dependencies of an implementation.

* `isEligible`: the agents that may be bound to a dependency. `Bindable`: those for which an
  implementation is found for each slot.
* `reaches_demandSlot_ok`, `reaches_bindDependency_ok`, `reaches_buildDependencyDict_ok`: what is
  returned, whatever the order of the rows.
-/

namespace Rekuest

open Interleave Prog Managers Sql

/-- The action key that a slot asks for: the one of its demand, or else its own. -/
def ActionDemand.actionKey (d : ActionDemand) : String :=
  if Backend.truthy d.demandKey then d.demandKey.getD "" else d.key

/-- The whole demand of a slot, whose key doubles as the key of the action. -/
def Server.slotDemand (V : Server) (d : ActionDemand) : ActionDemandInput :=
  { (V.demand d).getD {} with key := some d.actionKey }

/-- The action satisfies the demand of the slot. -/
def Server.Fulfils (V : Server) (d : ActionDemand) (action : ActionId) : Prop :=
  ∃ row ∈ V.tables "facade_action", row "id" = some (.int action) ∧
    (V.slotDemand d).Selects V.pathMatch V.tables row

namespace Dependency

/-- As many instances as the dependency asks for. -/
structure Viable (dep : Dependency) (n : Nat) : Prop where
  enough : ∀ k, dep.minViableInstances = some k → k ≤ n
  atMost : ∀ k, dep.maxViableInstances = some k → n ≤ k

/-- `agents[:max]`. -/
def trim {α : Type} (dep : Dependency) (agents : List α) : List α :=
  match dep.maxViableInstances with
  | some n => agents.take n
  | none => agents

end Dependency

namespace Backend

/-! ## Candidates -/

section

variable (S : Settings) (now : Time) (db : Database) (organization : Organization)
  (overwrites : List ResolvedDependency) (dep : Dependency)

/-- The agents that the caller chose. -/
def chosenAgents : Option (List AgentId) :=
  (overwrites.find? (·.key = dep.key)).bind fun overwrite =>
    if overwrite.autoResolve then none else some overwrite.mappedAgents

/-- The caller chose agents, or the server may. -/
def IsOpen : Prop := (chosenAgents overwrites dep).isSome = true ∨ dep.autoResolvable = true

/-- Whom the agents are chosen from. -/
def isAmong (id : AgentId) (agent : Agent) : Bool :=
  match chosenAgents overwrites dep with
  | some chosen => chosen.contains id
  | none => some agent.app = dep.appFilter && agent.organization = organization

def isEligible (id : AgentId) (agent : Agent) : Bool :=
  isAmong organization overwrites dep id agent && Liveness.agentAvailableQ S now agent

/-- An agent that may be bound to the dependency. -/
def Eligible (id : AgentId) : Prop :=
  ∃ agent, db.agents.get id = some agent ∧ isEligible S now organization overwrites dep id agent = true

/-- The eligible agents, in an order of the database. -/
def eligibleAgents (rank : Nat → Nat) : List AgentId :=
  (db.agents.selectBy rank (isEligible S now organization overwrites dep)).map (·.1)

end

/-! ## Slots -/

section

variable (db : Database) (agent : AgentId)

/-- The implementations of the agent whose action has the key. -/
def implementationsOfKey (d : ActionDemand) : List ImplementationId :=
  (db.implementations.select fun _ impl => impl.agent = agent
    && (db.actions.get impl.action).any (fun row => row.key = d.actionKey)).map (·.1)

/-- One implementation has the key, and it has no dependencies. -/
def Found (d : ActionDemand) (id : ImplementationId) : Prop :=
  implementationsOfKey db agent d = [id] ∧ AutoResolve.hasDependencies db id = false

/-- What is found for a slot. -/
def foundFor (d : ActionDemand) : ImplementationId := (implementationsOfKey db agent d).headD 0

def slotJson (id : ImplementationId) : Json :=
  .obj [("implementation", .num id), ("dependencies", .obj [])]

/-- An implementation is found for every slot. -/
def Bindable (dep : Dependency) : Prop := ∀ d ∈ dep.actionDemands, ∃ id, Found db agent d id

def agentJson (dep : Dependency) : Json :=
  .obj [("agent", .num agent), ("actions", .obj (Dict.update []
    (dep.actionDemands.map fun d => (d.key, slotJson (foundFor db agent d)))))]

theorem found_foundFor {db : Database} {agent : AgentId} {d : ActionDemand} {id : ImplementationId}
    (h : Found db agent d id) : foundFor db agent d = id := by
  rw [foundFor, h.1, List.headD_cons]

end

/-! ## What is returned -/

section

variable {S : Settings} {now : Time} {w : World} {organization : Organization}
  {overwrites : List ResolvedDependency} {dep : Dependency} {agent : AgentId}

/-- The answers of one instant. -/
abbrev Instant (S : Settings) (now : Time) (w : World) : (c : Stmt) → c.Ans → Prop :=
  Prog.Answered (exec S) (fun i => i.now = now) w

theorem exists_instant (c : Stmt) : ∃ a, Instant S now w c a := ⟨_, { now := now }, rfl, rfl⟩

theorem reaches_ask {α : Type} {q : Query} {f : q.Ans → Handler α} {r : Except Error α} :
    Prog.Reaches (L := Statements) (Instant S now w) r ((ask q).bind f) ↔
      ∃ i : Input, i.now = now ∧
        Prog.Reaches (L := Statements) (Instant S now w) r (f (q.eval S i w.db)) := by
  constructor
  · rintro ⟨_, ⟨i, hi, rfl⟩, hr⟩
    exact ⟨i, hi, hr⟩
  · rintro ⟨i, hi, hr⟩
    exact ⟨_, ⟨i, hi, rfl⟩, hr⟩

/-- What a program that only reads may end with, at that instant. -/
theorem reaches_instant_iff {α : Type} {p : Handler α}
    (hp : Prog.Issues (L := Statements) Stmt.IsRead p) (r : Except Error α) :
    Prog.Reaches (L := Statements) (Instant S now w) r p ↔
      ∃ inputs : Nat → Input, (∀ n, (inputs n).now = now) ∧ (run (exec S) p inputs w).result = r :=
  have hgood : ∃ i : Input, i.now = now := ⟨{ now := now }, rfl⟩
  reaches_iff_run isRead_exec hgood hp

theorem isEmpty_dependencies {id : ImplementationId} {i : Input} :
    ((Query.dependencies id).eval S i w.db).isEmpty = !AutoResolve.hasDependencies w.db id := by
  have hperm : ((Query.dependencies id).eval S i w.db).Perm
      ((w.db.dependencies.select fun _ d => d.implementation = id).map (·.2)) :=
    (List.perm_insertionSort _ _).map _
  rw [AutoResolve.hasDependencies, Bool.not_not, ← List.isEmpty_map (f := Prod.snd)]
  exact hperm.isEmpty_eq

/-- One slot: what is found for it, or an error. -/
theorem reaches_demandSlot {d : ActionDemand} {r : Except Error (String × Json)}
    (h : Prog.Reaches (L := Statements) (Instant S now w) r (demandSlot agent d)) :
    (∃ id, Found w.db agent d id ∧ .ok (d.key, slotJson id) = r) ∨
      (¬ ∃ id, Found w.db agent d id) ∧ ∃ e, .error e = r := by
  obtain ⟨i, _, h⟩ := reaches_ask.mp h
  have hquery : (Query.implementationsOfKey d.actionKey agent).eval S i w.db =
    implementationsOfKey w.db agent d := rfl
  split at h
  · rename_i hnone
    have hids := hquery.symm.trans hnone
    refine .inr ⟨?_, _, h⟩
    rintro ⟨id, hid, _⟩
    rw [hids] at hid
    cases hid
  · rename_i id hone
    have hids := hquery.symm.trans hone
    obtain ⟨j, _, h⟩ := reaches_ask.mp h
    split at h
    · rename_i hbare
      rw [isEmpty_dependencies, Bool.not_eq_true'] at hbare
      exact .inl ⟨id, ⟨hids, hbare⟩, h⟩
    · rename_i hbare
      rw [isEmpty_dependencies, Bool.not_eq_true'] at hbare
      refine .inr ⟨?_, _, h⟩
      rintro ⟨id', hid, hbare'⟩
      rw [hids] at hid
      cases hid
      exact hbare hbare'
  · rename_i ids hnil hmany
    refine .inr ⟨?_, _, h⟩
    rintro ⟨id, hid, _⟩
    exact hmany id (hquery.trans hid)

theorem reaches_demandSlot_ok {d : ActionDemand} {slot : String × Json} :
    Prog.Reaches (L := Statements) (Instant S now w) (.ok slot) (demandSlot agent d) ↔
      (∃ id, Found w.db agent d id) ∧ (d.key, slotJson (foundFor w.db agent d)) = slot := by
  constructor
  · intro h
    rcases reaches_demandSlot h with ⟨id, hid, hslot⟩ | ⟨_, e, he⟩
    · rw [found_foundFor hid]
      exact ⟨⟨id, hid⟩, Except.ok.inj hslot⟩
    · cases he
  · rintro ⟨hfound, rfl⟩
    obtain ⟨r, hr⟩ := exists_reaches (L := Statements) (@exists_instant S now w) (demandSlot agent d)
    rcases reaches_demandSlot hr with ⟨id, hid, rfl⟩ | ⟨hnone, _⟩
    · rw [found_foundFor hid]
      exact hr
    · exact absurd hfound hnone

theorem reaches_demandSlot_error {d : ActionDemand} {e : Error}
    (h : Prog.Reaches (L := Statements) (Instant S now w) (.error e) (demandSlot agent d)) :
    ¬ ∃ id, Found w.db agent d id := by
  rcases reaches_demandSlot h with ⟨_, _, hok⟩ | ⟨hnone, _⟩
  · cases hok
  · exact hnone

/-- One agent: what is found for each slot. -/
theorem reaches_buildAgentDependencyDict_ok {json : Json} :
    Prog.Reaches (L := Statements) (Instant S now w) (.ok json)
        (buildAgentDependencyDict dep agent) ↔
      Bindable w.db agent dep ∧ agentJson w.db agent dep = json := by
  unfold buildAgentDependencyDict
  refine reaches_bind_ok.trans ?_
  constructor
  · rintro ⟨slots, h, hjson⟩
    obtain ⟨hall, rfl⟩ := (reaches_collect_iff fun d slot => reaches_demandSlot_ok).mp h
    exact ⟨hall, Except.ok.inj hjson⟩
  · rintro ⟨hall, rfl⟩
    exact ⟨_, (reaches_collect_iff fun d slot => reaches_demandSlot_ok).mpr ⟨hall, rfl⟩, rfl⟩

theorem reaches_buildAgentDependencyDict_error {e : Error}
    (h : Prog.Reaches (L := Statements) (Instant S now w) (.error e)
      (buildAgentDependencyDict dep agent)) : ¬ Bindable w.db agent dep := by
  intro hall
  rcases reaches_bind_error.mp h with h | ⟨_, _, h⟩
  · obtain ⟨d, hd, he⟩ := reaches_collect_error h
    exact reaches_demandSlot_error he (hall d hd)
  · cases h

/-! ## Dependencies -/

theorem eval_appAgents {i : Input} (hnone : chosenAgents overwrites dep = none) :
    (Query.appAgents dep.appFilter organization).eval S i w.db =
      eligibleAgents S i.now w.db organization overwrites dep i.rank := by
  have hsame : (fun (_ : Nat) (agent : Agent) => some agent.app = dep.appFilter
      && agent.organization = organization && Liveness.agentAvailableQ S i.now agent) =
        isEligible S i.now organization overwrites dep := by
    funext id agent
    rw [isEligible, isAmong, hnone]
  unfold eligibleAgents
  rw [← hsame]
  rfl

theorem eval_mappedAgents {i : Input} {chosen : List AgentId}
    (hsome : chosenAgents overwrites dep = some chosen) :
    (Query.mappedAgents chosen).eval S i w.db =
      eligibleAgents S i.now w.db organization overwrites dep i.rank := by
  have hsame : (fun (id : Nat) (agent : Agent) => chosen.contains id
      && Liveness.agentAvailableQ S i.now agent) =
        isEligible S i.now organization overwrites dep := by
    funext id agent
    rw [isEligible, isAmong, hsome]
  unfold eligibleAgents
  rw [← hsame]
  rfl

theorem reaches_appAgents {r : Except Error (List AgentId)}
    (hnone : chosenAgents overwrites dep = none) :
    Prog.Reaches (L := Statements) (Instant S now w) r
        (ask (.appAgents dep.appFilter organization)) ↔
      ∃ rank, .ok (eligibleAgents S now w.db organization overwrites dep rank) = r := by
  constructor
  · rintro ⟨_, ⟨i, rfl, rfl⟩, rfl⟩
    exact ⟨i.rank, congrArg Except.ok (eval_appAgents hnone).symm⟩
  · rintro ⟨rank, rfl⟩
    exact ⟨_, ⟨{ now := now, rank := rank }, rfl, rfl⟩,
      congrArg Except.ok (eval_appAgents (i := { now := now, rank := rank }) hnone)⟩

theorem reaches_mappedAgents {r : Except Error (List AgentId)} {chosen : List AgentId}
    (hsome : chosenAgents overwrites dep = some chosen) :
    Prog.Reaches (L := Statements) (Instant S now w) r (ask (.mappedAgents chosen)) ↔
      ∃ rank, .ok (eligibleAgents S now w.db organization overwrites dep rank) = r := by
  constructor
  · rintro ⟨_, ⟨i, rfl, rfl⟩, rfl⟩
    exact ⟨i.rank, congrArg Except.ok (eval_mappedAgents hsome).symm⟩
  · rintro ⟨rank, rfl⟩
    exact ⟨_, ⟨{ now := now, rank := rank }, rfl, rfl⟩,
      congrArg Except.ok (eval_mappedAgents (i := { now := now, rank := rank }) hsome)⟩

/-- The candidates are the eligible agents, where the dependency is open. -/
theorem reaches_candidateAgents {r : Except Error (List AgentId)}
    (hopen : IsOpen overwrites dep) :
    Prog.Reaches (L := Statements) (Instant S now w) r
        (candidateAgents organization overwrites dep) ↔
      ∃ rank, .ok (eligibleAgents S now w.db organization overwrites dep rank) = r := by
  unfold candidateAgents
  unfold IsOpen at hopen
  split
  · rename_i overwrite hfind
    have hchosen : chosenAgents overwrites dep =
        if overwrite.autoResolve then none else some overwrite.mappedAgents := by
      rw [chosenAgents, hfind, Option.bind_some]
    split
    · rename_i hauto
      rw [if_pos hauto] at hchosen
      have hresolvable : dep.autoResolvable = true := by simpa [hchosen] using hopen
      rw [if_pos hresolvable]
      exact reaches_appAgents hchosen
    · rename_i hauto
      rw [if_neg hauto] at hchosen
      exact reaches_mappedAgents hchosen
  · rename_i hfind
    have hchosen : chosenAgents overwrites dep = none := by
      rw [chosenAgents, hfind, Option.bind_none]
    have hresolvable : dep.autoResolvable = true := by simpa [hchosen] using hopen
    rw [if_pos hresolvable]
    exact reaches_appAgents hchosen

/-- Where it is not, there is an error. -/
theorem isOpen_of_candidateAgents {agents : List AgentId}
    (h : Prog.Reaches (L := Statements) (Instant S now w) (.ok agents)
      (candidateAgents organization overwrites dep)) : IsOpen overwrites dep := by
  unfold candidateAgents at h
  unfold IsOpen
  split at h
  · rename_i overwrite hfind
    split at h
    · split at h
      · exact .inr ‹_›
      · cases h
    · rename_i hauto
      refine .inl ?_
      rw [chosenAgents, hfind, Option.bind_some, if_neg hauto]
      rfl
  · split at h
    · exact .inr ‹_›
    · cases h

variable (dep) in
/-- As many of the candidates as are allowed, where they are enough. -/
theorem viableAgents_eq (agents : List AgentId) : ∃ e : Nat → Error, viableAgents dep agents =
    match dep.minViableInstances with
    | some n => if (dep.trim agents).length < n then .fail (e n) else .ret (dep.trim agents)
    | none => .ret (dep.trim agents) :=
  ⟨_, rfl⟩

theorem reaches_viableAgents_ok {agents viable : List AgentId} :
    Prog.Reaches (L := Statements) (Instant S now w) (.ok viable) (viableAgents dep agents) ↔
      (∀ k, dep.minViableInstances = some k → k ≤ (dep.trim agents).length) ∧
        dep.trim agents = viable := by
  obtain ⟨e, he⟩ := viableAgents_eq dep agents
  rw [he]
  cases dep.minViableInstances with
  | none => simp [Reaches]
  | some n =>
    by_cases hfew : (dep.trim agents).length < n
    · simp [hfew, Reaches]
    · simp [hfew, Reaches, Nat.le_of_not_lt hfew]

theorem reaches_viableAgents_error {agents : List AgentId} {e : Error}
    (h : Prog.Reaches (L := Statements) (Instant S now w) (.error e) (viableAgents dep agents)) :
    ∃ k, dep.minViableInstances = some k ∧ (dep.trim agents).length < k := by
  obtain ⟨e, he⟩ := viableAgents_eq dep agents
  rw [he] at h
  cases hmin : dep.minViableInstances with
  | none =>
    rw [hmin] at h
    cases h
  | some n =>
    rw [hmin] at h
    by_cases hfew : (dep.trim agents).length < n
    · exact ⟨n, rfl, hfew⟩
    · simp [hfew, Reaches] at h

/-- What is done with the candidates for a dependency. -/
def bindCandidates (dep : Dependency) (candidates : List AgentId) : Handler (String × Json) := do
  let agents ← viableAgents dep candidates
  let bound ← Prog.collect (buildAgentDependencyDict dep) agents
  return (dep.key, .arr bound)

theorem bindDependency_eq : bindDependency organization overwrites dep =
    (candidateAgents organization overwrites dep).bind (bindCandidates dep) := rfl

/-- As many of them as are allowed are bound, where they are enough and all can be. -/
theorem reaches_bindCandidates_ok {candidates : List AgentId} {bound : String × Json} :
    Prog.Reaches (L := Statements) (Instant S now w) (.ok bound) (bindCandidates dep candidates) ↔
      ((∀ k, dep.minViableInstances = some k → k ≤ (dep.trim candidates).length) ∧
        ∀ a ∈ dep.trim candidates, Bindable w.db a dep) ∧
        (dep.key, .arr ((dep.trim candidates).map fun a => agentJson w.db a dep)) = bound := by
  refine reaches_bind_ok.trans ?_
  constructor
  · rintro ⟨viable, hviable, h⟩
    obtain ⟨henough, rfl⟩ := reaches_viableAgents_ok.mp hviable
    obtain ⟨jsons, hjsons, h⟩ := reaches_bind_ok.mp h
    obtain ⟨hall, rfl⟩ :=
      (reaches_collect_iff fun a json => reaches_buildAgentDependencyDict_ok).mp hjsons
    exact ⟨⟨henough, hall⟩, Except.ok.inj h⟩
  · rintro ⟨⟨henough, hall⟩, rfl⟩
    exact ⟨_, reaches_viableAgents_ok.mpr ⟨henough, rfl⟩, reaches_bind_ok.mpr
      ⟨_, (reaches_collect_iff fun a json => reaches_buildAgentDependencyDict_ok).mpr ⟨hall, rfl⟩,
        rfl⟩⟩

theorem reaches_bindCandidates_error {candidates : List AgentId} {e : Error}
    (h : Prog.Reaches (L := Statements) (Instant S now w) (.error e)
      (bindCandidates dep candidates)) :
    (∃ k, dep.minViableInstances = some k ∧ (dep.trim candidates).length < k) ∨
      ∃ a ∈ dep.trim candidates, ¬ Bindable w.db a dep := by
  rcases reaches_bind_error.mp h with h | ⟨viable, hviable, h⟩
  · exact .inl (reaches_viableAgents_error h)
  obtain ⟨_, rfl⟩ := reaches_viableAgents_ok.mp hviable
  rcases reaches_bind_error.mp h with h | ⟨_, _, h⟩
  · obtain ⟨a, ha, he⟩ := reaches_collect_error h
    exact .inr ⟨a, ha, reaches_buildAgentDependencyDict_error he⟩
  · cases h

/-- One dependency: the candidates are the eligible agents, in some order. -/
theorem reaches_bindDependency_ok {bound : String × Json} :
    Prog.Reaches (L := Statements) (Instant S now w) (.ok bound)
        (bindDependency organization overwrites dep) ↔
      IsOpen overwrites dep ∧ ∃ rank,
        Prog.Reaches (L := Statements) (Instant S now w) (.ok bound)
          (bindCandidates dep (eligibleAgents S now w.db organization overwrites dep rank)) := by
  rw [bindDependency_eq, reaches_bind_ok]
  constructor
  · rintro ⟨candidates, hcandidates, h⟩
    have hopen := isOpen_of_candidateAgents hcandidates
    obtain ⟨rank, hrank⟩ := (reaches_candidateAgents hopen).mp hcandidates
    cases hrank
    exact ⟨hopen, rank, h⟩
  · rintro ⟨hopen, rank, h⟩
    exact ⟨_, (reaches_candidateAgents hopen).mpr ⟨rank, rfl⟩, h⟩

theorem reaches_bindDependency_error {e : Error} (hopen : IsOpen overwrites dep) :
    Prog.Reaches (L := Statements) (Instant S now w) (.error e)
        (bindDependency organization overwrites dep) ↔
      ∃ rank, Prog.Reaches (L := Statements) (Instant S now w) (.error e)
        (bindCandidates dep (eligibleAgents S now w.db organization overwrites dep rank)) := by
  rw [bindDependency_eq, reaches_bind_error]
  simp only [reaches_candidateAgents hopen, reduceCtorEq, exists_false, false_or, Except.ok.injEq]
  constructor
  · rintro ⟨_, ⟨rank, rfl⟩, h⟩
    exact ⟨rank, h⟩
  · rintro ⟨rank, h⟩
    exact ⟨_, ⟨rank, rfl⟩, h⟩

/-- The dependencies of an implementation, in an order of the database. -/
theorem reaches_buildDependencyDict_ok {implementation : ImplementationId} {dict : Dict Json} :
    Prog.Reaches (L := Statements) (Instant S now w) (.ok dict)
        (buildDependencyDict implementation organization overwrites) ↔
      ∃ rank bound, List.Forall₂ (fun (d : Nat × Dependency) b =>
          Prog.Reaches (L := Statements) (Instant S now w) (.ok b)
            (bindDependency organization overwrites d.2))
        (w.db.dependencies.selectBy rank fun _ d => d.implementation = implementation) bound ∧
        Dict.update [] bound = dict := by
  unfold buildDependencyDict
  refine reaches_ask.trans ?_
  constructor
  · rintro ⟨i, _, h⟩
    obtain ⟨bound, hbound, h⟩ := reaches_bind_ok.mp h
    refine ⟨i.rank, bound, ?_, Except.ok.inj h⟩
    rw [reaches_collect_ok] at hbound
    exact List.forall₂_map_left_iff.mp hbound
  · rintro ⟨rank, bound, hbound, rfl⟩
    refine ⟨{ now := now, rank := rank }, rfl, reaches_bind_ok.mpr ⟨bound, ?_, rfl⟩⟩
    rw [reaches_collect_ok]
    exact List.forall₂_map_left_iff.mpr hbound

end

end Backend
end Rekuest
