import Rekuest.AutoResolve.Runs
import Rekuest.Registry.Declarations
import Rekuest.Tasks.Binding

/-!
# Rekuest.Tasks.Demanded

Whether what an assign binds to the dependencies of an implementation is what they demand.

* `BoundAgent`, `Honoured`: an agent, and a list of agents, that are bound as was demanded.
* `Enough`: enough agents offer what is demanded. `Possible`: enough agents can be bound.
* `HonoursDemands`: what is bound honours the demands, and nothing fails for want of it.
* `binding_honours_demands`: where every candidate offers one action of the key, as demanded.
-/

namespace Rekuest

open Interleave Prog Managers Sql

namespace Backend

section

variable (S : Settings) (V : Server) (now : Time) (db : Database) (organization : Organization)
  (overwrites : List ResolvedDependency) (dep : Dependency)

/-! ## Demands -/

/-- An agent that was bound: it is available, and each slot has an implementation of its own that
satisfies the demand. -/
def BoundAgent (json : Json) : Prop :=
  ∃ (id : AgentId) (agent : Agent) (slots : Dict Json),
    json = .obj [("agent", .num id), ("actions", .obj slots)] ∧
      db.agents.get id = some agent ∧ Liveness.agentAvailableQ S now agent = true ∧
      ∀ d ∈ dep.actionDemands, ∃ (i : ImplementationId) (impl : Implementation),
        slots.get? d.key = some (slotJson i) ∧ db.implementations.get i = some impl ∧
          impl.agent = id ∧ V.Fulfils d impl.action

/-- What was bound to a dependency: as many agents as it asks for. -/
def Honoured (json : Json) : Prop :=
  ∃ bound, json = .arr bound ∧ dep.Viable bound.length ∧
    ∀ agent ∈ bound, BoundAgent S V now db dep agent

/-- The agent has an implementation for every slot that satisfies its demand. Those with
dependencies of their own cannot be bound. -/
def Offers (id : AgentId) : Prop :=
  ∀ d ∈ dep.actionDemands, ∃ (i : ImplementationId) (impl : Implementation),
    db.implementations.get i = some impl ∧ impl.agent = id ∧
      AutoResolve.hasDependencies db i = false ∧ V.Fulfils d impl.action

/-- Some agents that may be bound offer what is demanded, and are as many as are asked for. -/
def Enough : Prop :=
  IsOpen overwrites dep ∧ ∃ agents : Finset AgentId, dep.Viable agents.card ∧
    ∀ a ∈ agents, Eligible S now db organization overwrites dep a ∧ Offers V db dep a

/-- The dependency is one of the implementation. -/
def DependencyOf (implementation : ImplementationId) : Prop :=
  ∃ k, db.dependencies.get k = some dep ∧ dep.implementation = implementation

end

/-- What is bound honours the demands, and it does not fail for a dependency for which enough
agents offer what it demands. -/
structure HonoursDemands (S : Settings) (V : Server) (now : Time) (w : World)
    (organization : Organization) (overwrites : List ResolvedDependency)
    (implementation : ImplementationId) : Prop where
  sound : ∀ inputs : Nat → Input, (∀ n, (inputs n).now = now) → ∀ dict,
    (run (exec S) (buildDependencyDict implementation organization overwrites) inputs w).result =
      .ok dict → ∀ dep, DependencyOf w.db dep implementation →
        ∃ json, Dict.get? dict dep.key = some json ∧ Honoured S V now w.db dep json
  complete : ∀ dep, DependencyOf w.db dep implementation →
    Enough S V now w.db organization overwrites dep →
      ∀ inputs : Nat → Input, (∀ n, (inputs n).now = now) → ∃ bound,
        (run (exec S) (bindDependency organization overwrites dep) inputs w).result = .ok bound

/-! ## Selections -/

section

variable (S : Settings) (V : Server) (now : Time) (db : Database) (organization : Organization)
  (overwrites : List ResolvedDependency) (dep : Dependency)

/-- Agents that can all be bound: as many as are asked for, and as many as there are or as are
allowed. -/
structure Selection (agents : Finset AgentId) : Prop where
  eligible : ∀ a ∈ agents, Eligible S now db organization overwrites dep a
  bindable : ∀ a ∈ agents, Bindable db a dep
  viable : dep.Viable agents.card
  full : dep.maxViableInstances = some agents.card ∨
    ∀ a, Eligible S now db organization overwrites dep a → a ∈ agents

/-- Some order of the agents lets the dependency be bound. -/
def Possible : Prop :=
  IsOpen overwrites dep ∧ ∃ agents, Selection S now db organization overwrites dep agents

/-- Of the slots with the key of this one the last. -/
def lastSlot (d : ActionDemand) : ActionDemand :=
  (dep.actionDemands.reverse.find? fun d' => d'.key = d.key).getD d

/-- What is found for the slots of the agent satisfies their demands. -/
def Matching (id : AgentId) : Prop :=
  ∀ d ∈ dep.actionDemands, ∀ impl,
    db.implementations.get (foundFor db id (lastSlot dep d)) = some impl → V.Fulfils d impl.action

end

section

variable {S : Settings} {V : Server} {now : Time} {db : Database} {organization : Organization}
  {overwrites : List ResolvedDependency} {dep : Dependency} {a : AgentId} {rank : Nat → Nat}
  {agents : Finset AgentId}

theorem mem_eligibleAgents : a ∈ eligibleAgents S now db organization overwrites dep rank ↔
    Eligible S now db organization overwrites dep a := by
  simp only [eligibleAgents, List.mem_map, Prod.exists, exists_and_right, exists_eq_right,
    Table.mem_selectBy, Eligible]

theorem nodup_eligibleAgents : (eligibleAgents S now db organization overwrites dep rank).Nodup :=
  Table.keys_selectBy_nodup

theorem card_le_eligibleAgents
    (h : ∀ a ∈ agents, Eligible S now db organization overwrites dep a) :
    agents.card ≤ (eligibleAgents S now db organization overwrites dep rank).length := by
  rw [← List.toFinset_card_of_nodup nodup_eligibleAgents]
  exact Finset.card_le_card fun a ha => List.mem_toFinset.mpr (mem_eligibleAgents.mpr (h a ha))

/-- Some order has these agents first. -/
theorem exists_rank_eligible
    (h : ∀ a ∈ agents, Eligible S now db organization overwrites dep a) :
    ∃ rank, ∀ a, a ∈ (eligibleAgents S now db organization overwrites dep rank).take agents.card ↔
      a ∈ agents :=
  Table.exists_rank_first _ _ fun a ha => by
    obtain ⟨agent, hget, heligible⟩ := h a ha
    exact List.mem_map.mpr ⟨(a, agent), Table.mem_select.mpr ⟨hget, heligible⟩, rfl⟩

/-! ## Trimmed lists -/

theorem trim_sublist {α : Type} {l : List α} : (dep.trim l).Sublist l := by
  unfold Dependency.trim
  cases dep.maxViableInstances with
  | none => exact List.Sublist.refl l
  | some n => exact List.take_sublist n l

theorem length_trim_le {α : Type} {l : List α} {k : Nat} (h : dep.maxViableInstances = some k) :
    (dep.trim l).length ≤ k := by
  unfold Dependency.trim
  rw [h]
  exact List.length_take_le k l

/-- What fits in is left there. -/
theorem take_sublist_trim {α : Type} {l : List α} {n : Nat}
    (h : ∀ k, dep.maxViableInstances = some k → n ≤ k) : (l.take n).Sublist (dep.trim l) := by
  unfold Dependency.trim
  cases hmax : dep.maxViableInstances with
  | none => exact List.take_sublist n l
  | some k => exact List.take_sublist_take_left (h k hmax)

/-- The agents of a selection are those that are left, in some order. -/
theorem Selection.exists_rank (h : Selection S now db organization overwrites dep agents) :
    ∃ rank, ∀ a, a ∈ dep.trim (eligibleAgents S now db organization overwrites dep rank) ↔
      a ∈ agents := by
  obtain ⟨rank, hrank⟩ := exists_rank_eligible h.eligible
  refine ⟨rank, fun a => ⟨fun ha => ?_, fun ha => ?_⟩⟩
  · rcases h.full with hfull | hall
    · rw [Dependency.trim, hfull] at ha
      exact (hrank a).mp ha
    · exact hall a (mem_eligibleAgents.mp (trim_sublist.subset ha))
  · exact (take_sublist_trim h.viable.atMost).subset ((hrank a).mpr ha)

theorem card_trim
    (h : ∀ a, a ∈ dep.trim (eligibleAgents S now db organization overwrites dep rank) ↔
      a ∈ agents) :
    (dep.trim (eligibleAgents S now db organization overwrites dep rank)).length = agents.card := by
  have hnodup : (dep.trim (eligibleAgents S now db organization overwrites dep rank)).Nodup :=
    nodup_eligibleAgents.sublist trim_sublist
  rw [← List.toFinset_card_of_nodup hnodup]
  congr 1
  ext a
  rw [List.mem_toFinset, h a]

/-- The agents that are left are a selection, where they are enough and all can be bound. -/
theorem selection_trim
    (henough : ∀ k, dep.minViableInstances = some k →
      k ≤ (dep.trim (eligibleAgents S now db organization overwrites dep rank)).length)
    (hbindable : ∀ a ∈ dep.trim (eligibleAgents S now db organization overwrites dep rank),
      Bindable db a dep) :
    Selection S now db organization overwrites dep
      (dep.trim (eligibleAgents S now db organization overwrites dep rank)).toFinset := by
  have hcard : (dep.trim (eligibleAgents S now db organization overwrites dep rank)).length =
      (dep.trim (eligibleAgents S now db organization overwrites dep rank)).toFinset.card :=
    card_trim fun a => List.mem_toFinset.symm
  refine ⟨fun a ha => ?_, fun a ha => hbindable a (List.mem_toFinset.mp ha), ⟨?_, ?_⟩, ?_⟩
  · exact mem_eligibleAgents.mp (trim_sublist.subset (List.mem_toFinset.mp ha))
  · rw [← hcard]
    exact henough
  · rw [← hcard]
    exact fun k hk => length_trim_le hk
  · rw [← hcard]
    simp only [List.mem_toFinset]
    unfold Dependency.trim
    cases dep.maxViableInstances with
    | none => exact .inr fun a ha => mem_eligibleAgents.mpr ha
    | some k =>
      rcases Nat.le_total k
        (eligibleAgents S now db organization overwrites dep rank).length with hle | hle
      · left
        dsimp only
        rw [List.length_take, Nat.min_eq_left hle]
      · right
        intro a ha
        dsimp only
        rw [List.take_of_length_le hle]
        exact mem_eligibleAgents.mpr ha

/-- Another agent that can be bound may take the place of one of a selection. -/
theorem Selection.exists_with (h : Selection S now db organization overwrites dep agents)
    (hmax : dep.maxViableInstances ≠ some 0)
    (heligible : Eligible S now db organization overwrites dep a) (hbindable : Bindable db a dep) :
    ∃ agents, a ∈ agents ∧ Selection S now db organization overwrites dep agents := by
  by_cases ha : a ∈ agents
  · exact ⟨agents, ha, h⟩
  have hfull : dep.maxViableInstances = some agents.card := by
    rcases h.full with hfull | hall
    · exact hfull
    · exact absurd (hall a heligible) ha
  have hnonempty : agents.Nonempty := by
    rw [← Finset.card_pos]
    by_contra hzero
    rw [hfull] at hmax
    exact hmax (congrArg some (Nat.eq_zero_of_not_pos hzero))
  obtain ⟨b, hb⟩ := hnonempty
  have hcard : (insert a (agents.erase b)).card = agents.card := by
    rw [Finset.card_insert_of_notMem fun h => ha (Finset.mem_of_mem_erase h),
      Finset.card_erase_of_mem hb]
    exact Nat.sub_add_cancel (Finset.card_pos.mpr ⟨b, hb⟩)
  refine ⟨_, Finset.mem_insert_self a (agents.erase b), fun c hc => ?_, fun c hc => ?_, ?_, ?_⟩
  · rcases Finset.mem_insert.mp hc with rfl | hc
    · exact heligible
    · exact h.eligible c (Finset.mem_of_mem_erase hc)
  · rcases Finset.mem_insert.mp hc with rfl | hc
    · exact hbindable
    · exact h.bindable c (Finset.mem_of_mem_erase hc)
  · rw [hcard]
    exact h.viable
  · rw [hcard]
    exact .inl hfull

/-! ## Bound agents -/

/-- The entry of a slot is what is found for the last slot with its key. -/
theorem get?_agentJson {d : ActionDemand} (hd : d ∈ dep.actionDemands) :
    Dict.get? (Dict.update [] (dep.actionDemands.map fun d =>
      (d.key, slotJson (foundFor db a d)))) d.key =
        some (slotJson (foundFor db a (lastSlot dep d))) := by
  rw [Dict.get?_update_last, lastSlot]
  cases hlast : dep.actionDemands.reverse.find? fun d' => d'.key = d.key with
  | some d' => rfl
  | none =>
    rw [List.find?_eq_none] at hlast
    exact absurd (by simp) (hlast d (List.mem_reverse.mpr hd))

theorem lastSlot_mem {d : ActionDemand} (hd : d ∈ dep.actionDemands) :
    lastSlot dep d ∈ dep.actionDemands := by
  rw [lastSlot]
  cases hlast : dep.actionDemands.reverse.find? fun d' => d'.key = d.key with
  | some d' => exact List.mem_reverse.mp (List.mem_of_find?_eq_some hlast)
  | none => exact hd

/-- What is found is an implementation of the agent. -/
theorem Found.get {d : ActionDemand} {id : ImplementationId} (h : Found db a d id) :
    ∃ impl, db.implementations.get id = some impl ∧ impl.agent = a := by
  have hmem : id ∈ implementationsOfKey db a d := h.1 ▸ List.mem_singleton_self id
  obtain ⟨⟨id', impl⟩, hselected, rfl⟩ := List.mem_map.mp hmem
  obtain ⟨hget, hp⟩ := Table.mem_select.mp hselected
  simp only [Bool.and_eq_true, decide_eq_true_eq] at hp
  exact ⟨impl, hget, hp.1⟩

/-- An agent that is bound is bound as demanded where what is found for it is. -/
theorem boundAgent_iff (heligible : Eligible S now db organization overwrites dep a)
    (hbindable : Bindable db a dep) :
    BoundAgent S V now db dep (agentJson db a dep) ↔ Matching V db dep a := by
  obtain ⟨agent, hget, hp⟩ := heligible
  simp only [isEligible, Bool.and_eq_true] at hp
  constructor
  · rintro ⟨id, agent', slots, hjson, _, _, hslots⟩ d hd impl himpl
    simp only [agentJson, Json.obj.injEq, List.cons.injEq, Prod.mk.injEq, Json.num.injEq,
      true_and, and_true] at hjson
    obtain ⟨hid, rfl⟩ := hjson
    obtain ⟨i, impl', hi, himpl', _, hfulfils⟩ := hslots d hd
    rw [get?_agentJson hd] at hi
    simp only [slotJson, Option.some.injEq, Json.obj.injEq, List.cons.injEq, Prod.mk.injEq,
      Json.num.injEq, true_and, and_true, Int.ofNat_inj] at hi
    rw [hi, himpl'] at himpl
    cases himpl
    exact hfulfils
  · intro hmatching
    refine ⟨a, agent, _, rfl, hget, hp.2, fun d hd => ?_⟩
    obtain ⟨id, hfound⟩ := hbindable _ (lastSlot_mem hd)
    obtain ⟨impl, himpl, hagent⟩ := hfound.get
    have hid := found_foundFor hfound
    refine ⟨id, impl, ?_, himpl, hagent, hmatching d hd impl ?_⟩
    · rw [get?_agentJson hd, hid]
    · rw [hid]
      exact himpl

/-! ## Failures -/

variable {w : World}

theorem mem_trim_of_ne_zero (hmax : dep.maxViableInstances ≠ some 0)
    (heligible : Eligible S now db organization overwrites dep a) :
    ∃ rank, a ∈ dep.trim (eligibleAgents S now db organization overwrites dep rank) := by
  have hsingle : ∀ b ∈ ({a} : Finset AgentId),
      Eligible S now db organization overwrites dep b := by
    intro b hb
    rw [Finset.mem_singleton.mp hb]
    exact heligible
  obtain ⟨rank, hrank⟩ := exists_rank_eligible hsingle
  refine ⟨rank, (take_sublist_trim fun k hk => ?_).subset
    ((hrank a).mpr (Finset.mem_singleton_self a))⟩
  rw [Finset.card_singleton]
  exact Nat.pos_of_ne_zero fun hzero => hmax (hk.trans (congrArg some hzero))

/-- A dependency that enough agents can honour is bound in every order where every agent that may
be chosen can be bound. -/
theorem never_fails_iff (henough : Enough S V now w.db organization overwrites dep) :
    (∀ inputs : Nat → Input, (∀ n, (inputs n).now = now) → ∃ bound,
      (run (exec S) (bindDependency organization overwrites dep) inputs w).result = .ok bound) ↔
    (dep.maxViableInstances ≠ some 0 →
      ∀ a, Eligible S now w.db organization overwrites dep a → Bindable w.db a dep) := by
  obtain ⟨hopen, agents, hviable, hagents⟩ := henough
  have hreads : Prog.Issues (L := Statements) Stmt.IsRead
      (bindDependency organization overwrites dep) := resolves_isRead.bindDependency
  constructor
  · intro hreturns hmax a heligible
    by_contra hbindable
    obtain ⟨rank, hmem⟩ := mem_trim_of_ne_zero hmax heligible
    obtain ⟨r, hr⟩ := exists_reaches (L := Statements) (@exists_instant S now w)
      (bindCandidates dep (eligibleAgents S now w.db organization overwrites dep rank))
    cases r with
    | ok bound => exact hbindable ((reaches_bindCandidates_ok.mp hr).1.2 a hmem)
    | error e =>
      obtain ⟨inputs, hnow, he⟩ :=
        (reaches_instant_iff hreads _).mp ((reaches_bindDependency_error hopen).mpr ⟨rank, hr⟩)
      obtain ⟨bound, hok⟩ := hreturns inputs hnow
      rw [hok] at he
      cases he
  · intro hall inputs hnow
    cases hresult :
        (run (exec S) (bindDependency organization overwrites dep) inputs w).result with
    | ok bound => exact ⟨bound, rfl⟩
    | error e =>
      obtain ⟨rank, h⟩ :=
        (reaches_bindDependency_error hopen).mp
          ((reaches_instant_iff hreads _).mpr ⟨inputs, hnow, hresult⟩)
      rcases reaches_bindCandidates_error h with ⟨k, hk, hfew⟩ | ⟨a, ha, hbindable⟩
      · have hcard : agents.card ≤ (eligibleAgents S now w.db organization overwrites dep rank).length :=
          card_le_eligibleAgents fun a ha => (hagents a ha).1
        have hleft := (take_sublist_trim (l :=
          eligibleAgents S now w.db organization overwrites dep rank) hviable.atMost).length_le
        rw [List.length_take, Nat.min_eq_left hcard] at hleft
        have hmin := hviable.enough k hk
        omega
      · refine absurd (hall (fun hzero => ?_) a (mem_eligibleAgents.mp (trim_sublist.subset ha)))
          hbindable
        have hnil := length_trim_le hzero (l :=
          eligibleAgents S now w.db organization overwrites dep rank)
        rw [Nat.le_zero, List.length_eq_zero_iff] at hnil
        rw [hnil] at ha
        cases ha

/-! ## What is bound -/

variable {implementation : ImplementationId} {bound : String × Json}

/-- A dependency that is bound is possible, and its entry has the agents of an order. -/
theorem possible_of_reaches (h : Prog.Reaches (L := Statements) (Instant S now w) (.ok bound)
      (bindDependency organization overwrites dep)) :
    Possible S now w.db organization overwrites dep := by
  obtain ⟨hopen, rank, h⟩ := reaches_bindDependency_ok.mp h
  obtain ⟨⟨henough, hall⟩, _⟩ := reaches_bindCandidates_ok.mp h
  exact ⟨hopen, _, selection_trim henough hall⟩

/-- A selection is what is bound, in some order. -/
theorem reaches_of_selection (hopen : IsOpen overwrites dep)
    (h : Selection S now w.db organization overwrites dep agents) :
    ∃ bound, (∀ a ∈ agents, agentJson w.db a dep ∈ bound) ∧
      Prog.Reaches (L := Statements) (Instant S now w) (.ok (dep.key, .arr bound))
        (bindDependency organization overwrites dep) := by
  obtain ⟨rank, hrank⟩ := h.exists_rank
  refine ⟨(dep.trim (eligibleAgents S now w.db organization overwrites dep rank)).map
    fun a => agentJson w.db a dep, fun a ha => List.mem_map.mpr ⟨a, (hrank a).mpr ha, rfl⟩,
    reaches_bindDependency_ok.mpr
    ⟨hopen, rank, reaches_bindCandidates_ok.mpr ⟨⟨?_, fun a ha => ?_⟩, rfl⟩⟩⟩
  · rw [card_trim hrank]
    exact h.viable.enough
  · exact h.bindable a ((hrank a).mp ha)

/-- What is bound honours the demands, where what is found for the agents does. -/
theorem honoured_of_reaches
    (hmatching : dep.maxViableInstances ≠ some 0 → ∀ a,
      Eligible S now w.db organization overwrites dep a → Bindable w.db a dep →
        Matching V w.db dep a)
    (h : Prog.Reaches (L := Statements) (Instant S now w) (.ok bound)
      (bindDependency organization overwrites dep)) :
    bound.1 = dep.key ∧ Honoured S V now w.db dep bound.2 := by
  obtain ⟨hopen, rank, h⟩ := reaches_bindDependency_ok.mp h
  obtain ⟨⟨henough, hall⟩, rfl⟩ := reaches_bindCandidates_ok.mp h
  refine ⟨rfl, _, rfl, ⟨?_, ?_⟩, ?_⟩
  · rw [List.length_map]
    exact henough
  · rw [List.length_map]
    exact fun k hk => length_trim_le hk
  · rintro _ hjson
    obtain ⟨a, ha, rfl⟩ := List.mem_map.mp hjson
    have heligible : Eligible S now w.db organization overwrites dep a :=
      mem_eligibleAgents.mp (trim_sublist.subset ha)
    refine (boundAgent_iff heligible (hall a ha)).mpr
      (hmatching (fun hzero => ?_) a heligible (hall a ha))
    have hnil := length_trim_le hzero (l :=
      eligibleAgents S now w.db organization overwrites dep rank)
    rw [Nat.le_zero, List.length_eq_zero_iff] at hnil
    rw [hnil] at ha
    cases ha

variable (rank) in
theorem mem_dependencies : (∃ k, (k, dep) ∈
    w.db.dependencies.selectBy rank fun _ d => d.implementation = implementation) ↔
      DependencyOf w.db dep implementation := by
  simp only [Table.mem_selectBy, decide_eq_true_eq, DependencyOf]

/-- The entries of the dependencies, which have keys of their own. -/
theorem nodupKeys_bound (hone : ∀ key, Registration.OneRow w.db.dependencies implementation key)
    {bound : List (String × Json)}
    (h : List.Forall₂ (fun (d : Nat × Dependency) b => b.1 = d.2.key)
      (w.db.dependencies.selectBy rank fun _ d => d.implementation = implementation) bound) :
    Dict.NodupKeys bound := by
  rw [Dict.NodupKeys, Fallible.map_eq_of_forall₂ h]
  have hnodup : (w.db.dependencies.selectBy rank fun _ d =>
      d.implementation = implementation).Nodup := Table.keys_selectBy_nodup.of_map
  refine hnodup.map_on fun d hd d' hd' hkey => ?_
  obtain ⟨k, d⟩ := d
  obtain ⟨k', d'⟩ := d'
  obtain ⟨hget, hof⟩ := Table.mem_selectBy.mp hd
  obtain ⟨hget', hof'⟩ := Table.mem_selectBy.mp hd'
  have hk := hone d'.key k k' d d' hget hget' (of_decide_eq_true hof) (of_decide_eq_true hof') hkey rfl
  subst hk
  rw [hget] at hget'
  rw [Option.some.inj hget']

/-- Where every dependency can be bound, the entries of a result are those of some bindings. -/
theorem sound_iff (hone : ∀ key, Registration.OneRow w.db.dependencies implementation key) :
    (∀ inputs : Nat → Input, (∀ n, (inputs n).now = now) → ∀ dict,
      (run (exec S) (buildDependencyDict implementation organization overwrites) inputs w).result =
        .ok dict → ∀ dep, DependencyOf w.db dep implementation →
          ∃ json, Dict.get? dict dep.key = some json ∧ Honoured S V now w.db dep json) ↔
    ((∀ dep, DependencyOf w.db dep implementation →
        Possible S now w.db organization overwrites dep) →
      ∀ dep, DependencyOf w.db dep implementation → dep.maxViableInstances ≠ some 0 →
        ∀ a, Eligible S now w.db organization overwrites dep a → Bindable w.db a dep →
          Matching V w.db dep a) := by
  have hreads : Prog.Issues (L := Statements) Stmt.IsRead
      (buildDependencyDict implementation organization overwrites) :=
    resolves_isRead.buildDependencyDict
  have hentry : ∀ {rank : Nat → Nat} {bound : List (String × Json)} {dep : Dependency} {json : Json},
      List.Forall₂ (fun (d : Nat × Dependency) b => b.1 = d.2.key)
        (w.db.dependencies.selectBy rank fun _ d => d.implementation = implementation) bound →
      (dep.key, json) ∈ bound → Dict.get? (Dict.update [] bound) dep.key = some json := by
    intro rank bound dep json hforall hmem
    have hnodup := nodupKeys_bound hone hforall
    have hsame : Dict.update [] bound = bound := Dict.update_of_nodup (d := []) hnodup
    rw [hsame]
    exact Dict.get?_of_mem hnodup hmem
  constructor
  · intro hsound hpossible dep hdep hmax a heligible hbindable
    obtain ⟨hopen, agents, hselection⟩ := hpossible dep hdep
    obtain ⟨agents, ha, hselection⟩ := hselection.exists_with hmax heligible hbindable
    obtain ⟨jsons, hjsons, hreaches⟩ := reaches_of_selection hopen hselection
    -- every dependency is bound in some way, and this one with the agent
    have hsome : ∀ d ∈ w.db.dependencies.selectBy id fun _ d => d.implementation = implementation,
        ∃ b, Prog.Reaches (L := Statements) (Instant S now w) (.ok b)
          (bindDependency organization overwrites d.2) ∧
            b.1 = d.2.key ∧ (d.2 = dep → b = (dep.key, .arr jsons)) := by
      rintro ⟨k, d⟩ hd
      by_cases hsame : d = dep
      · subst hsame
        exact ⟨_, hreaches, rfl, fun _ => rfl⟩
      · obtain ⟨hopen, others, hothers⟩ := hpossible d ((mem_dependencies _).mp ⟨k, hd⟩)
        obtain ⟨bound, _, hbound⟩ := reaches_of_selection hopen hothers
        exact ⟨_, hbound, rfl, fun h => absurd h hsame⟩
    obtain ⟨bound, hbound⟩ := Fallible.exists_forall₂ hsome
    obtain ⟨inputs, hnow, hdict⟩ := (reaches_instant_iff hreads _).mp
      (reaches_buildDependencyDict_ok.mpr ⟨id, bound, hbound.imp fun d b h => h.1, rfl⟩)
    obtain ⟨json, hget, bound', rfl, _, hagents⟩ := hsound inputs hnow _ hdict dep hdep
    obtain ⟨k, hk⟩ := (mem_dependencies _).mpr hdep
    obtain ⟨b, hb, _, _, hthis⟩ := Fallible.mem_left_of_forall₂ hbound hk
    rw [hthis rfl] at hb
    rw [hentry (hbound.imp fun d b h => h.2.1) hb] at hget
    cases hget
    exact (boundAgent_iff heligible hbindable).mp (hagents _ (hjsons a ha))
  · intro hmatching inputs hnow dict hdict dep hdep
    obtain ⟨rank, bound, hbound, rfl⟩ := reaches_buildDependencyDict_ok.mp
      ((reaches_instant_iff hreads _).mpr ⟨inputs, hnow, hdict⟩)
    have hpossible : ∀ dep, DependencyOf w.db dep implementation →
        Possible S now w.db organization overwrites dep := by
      intro dep hdep
      obtain ⟨k, hk⟩ := (mem_dependencies rank).mpr hdep
      obtain ⟨b, _, hb⟩ := Fallible.mem_left_of_forall₂ hbound hk
      exact possible_of_reaches hb
    have hall : List.Forall₂ (fun (d : Nat × Dependency) b =>
        b.1 = d.2.key ∧ Honoured S V now w.db d.2 b.2)
        (w.db.dependencies.selectBy rank fun _ d => d.implementation = implementation) bound := by
      refine ((List.forall₂_and_left _ _).mpr
        ⟨fun d hd => (mem_dependencies rank).mp ⟨d.1, hd⟩, hbound⟩).imp ?_
      rintro d b ⟨hd, hb⟩
      exact honoured_of_reaches (hmatching hpossible d.2 hd) hb
    obtain ⟨k, hk⟩ := (mem_dependencies rank).mpr hdep
    obtain ⟨⟨key, json⟩, hb, hkey, hhonoured⟩ := Fallible.mem_left_of_forall₂ hall hk
    cases hkey
    exact ⟨json, hentry (hall.imp fun d b h => h.1) hb, hhonoured⟩

end

/-- **Dispatch honours the demands** exactly where every agent that may be chosen has one
implementation of each slot's key, and the one that it has satisfies the whole demand. -/
theorem binding_honours_demands (S : Settings) (V : Server) (now : Time) (w : World)
    (organization : Organization) (overwrites : List ResolvedDependency)
    (implementation : ImplementationId)
    (hone : ∀ key, Registration.OneRow w.db.dependencies implementation key) :
    HonoursDemands S V now w organization overwrites implementation ↔
      (∀ dep, DependencyOf w.db dep implementation →
        Enough S V now w.db organization overwrites dep → dep.maxViableInstances ≠ some 0 →
          ∀ a, Eligible S now w.db organization overwrites dep a → Bindable w.db a dep) ∧
      ((∀ dep, DependencyOf w.db dep implementation →
          Possible S now w.db organization overwrites dep) →
        ∀ dep, DependencyOf w.db dep implementation → dep.maxViableInstances ≠ some 0 →
          ∀ a, Eligible S now w.db organization overwrites dep a → Bindable w.db a dep →
            Matching V w.db dep a) := by
  rw [← sound_iff hone]
  constructor
  · intro h
    exact ⟨fun dep hdep henough => (never_fails_iff henough).mp (h.complete dep hdep henough),
      h.sound⟩
  · rintro ⟨hcomplete, hsound⟩
    exact ⟨hsound, fun dep hdep henough =>
      (never_fails_iff henough).mpr (hcomplete dep hdep henough)⟩

/-! ## A laboratory -/

/-- A dependency on an agent that snaps, which the server may choose. -/
def anyCamera : Dependency :=
  { AutoResolve.camera "left" (some 1) with
    autoResolvable := true
    appFilter := some "mikro"
    minViableInstances := some 1 }

def snap (version : String) : Action :=
  { key := "snap", version := version, hash := version, organization := AutoResolve.lab }

/-- One agent, with an implementation that has a dependency, and others of two versions of `snap`. -/
def snapLab (versions : List ActionId) : World where
  db := {
    agents := Table.empty.insert { AutoResolve.labAgent with kind := .webhook }
    actions := Table.empty.insertAll [{ key := "run", hash := "run", organization := AutoResolve.lab },
      snap "1", snap "2"]
    implementations := Table.empty.insertAll ({ interface := "run", action := 1, agent := 1 } ::
      versions.map fun action => { interface := s!"snap {action}", action := action, agent := 1 })
    dependencies := Table.empty.insert anyCamera }

def snapRow (id : Nat) (version : String) : Row SqlValue := fun column =>
  if column = "id" then some (.int id) else if column = "key" then some (.text "snap")
  else if column = "version" then some (.text version) else none

def snapServer : Server :=
  { AutoResolve.labServer with
    tables := fun table => if table = "facade_action" then [snapRow 2 "1", snapRow 3 "2"] else [] }

theorem fulfils_snap {action : ActionId} {version : String} {d : ActionDemand}
    (hrow : snapRow action version ∈ snapServer.tables "facade_action")
    (hd : d ∈ anyCamera.actionDemands) : snapServer.Fulfils d action := by
  rw [List.mem_singleton.mp hd]
  refine ⟨_, hrow, rfl, nofun, fun _ => ?_⟩
  exact {
    key := fun s hs => by
      cases hs
      exact ⟨_, _, rfl, rfl, rfl⟩
    app := nofun, version := nofun, name := nofun, args := nofun, returns := nofun
    argLength := nofun, returnLength := nofun, protocols := nofun, pure_ := nofun
    idempotent := nofun, stateful := nofun }

theorem snapLab_dependency {versions : List ActionId} {dep : Dependency}
    (h : DependencyOf (snapLab versions).db dep 1) : dep = anyCamera := by
  obtain ⟨k, hget, _⟩ := h
  rcases Table.get_insert_cases hget with ⟨_, rfl⟩ | ⟨_, hnone⟩
  · rfl
  · cases hnone

theorem snapLab_agent {versions : List ActionId} {a : AgentId}
    (h : Eligible {} 0 (snapLab versions).db AutoResolve.lab [] anyCamera a) : a = 1 := by
  obtain ⟨agent, hget, _⟩ := h
  rcases Table.get_insert_cases hget with ⟨rfl, _⟩ | ⟨_, hnone⟩
  · rfl
  · cases hnone

/-- One agent with one version of the action. -/
theorem one_version_bound : HonoursDemands {} snapServer 0 (snapLab [2]) AutoResolve.lab [] 1 := by
  refine (binding_honours_demands {} snapServer 0 (snapLab [2]) AutoResolve.lab [] 1 ?_).mpr
    ⟨?_, ?_⟩
  · intro key j k d d' hj hk _ _ _ _
    rcases Table.get_insert_cases hj with ⟨rfl, _⟩ | ⟨_, hnone⟩
    · rcases Table.get_insert_cases hk with ⟨rfl, _⟩ | ⟨_, hnone⟩
      · rfl
      · cases hnone
    · cases hnone
  · intro dep hdep _ _ a ha
    rw [snapLab_dependency hdep] at ha ⊢
    rw [snapLab_agent ha]
    intro d hd
    rw [List.mem_singleton.mp hd]
    exact ⟨2, rfl, rfl⟩
  · intro _ dep hdep _ a ha _
    rw [snapLab_dependency hdep] at ha ⊢
    rw [snapLab_agent ha]
    intro d hd impl himpl
    have himpl' : impl = { interface := "snap 2", action := 2, agent := 1 } := by
      rw [List.mem_singleton.mp hd] at himpl
      exact (Option.some.inj himpl).symm
    rw [himpl']
    exact fulfils_snap List.mem_cons_self hd

/-- An agent that offers two versions of the action cannot be bound, although each satisfies the
demand. -/
theorem two_versions_unbound :
    ¬ HonoursDemands {} snapServer 0 (snapLab [2, 3]) AutoResolve.lab [] 1 := by
  intro h
  have henough : Enough {} snapServer 0 (snapLab [2, 3]).db AutoResolve.lab [] anyCamera := by
    refine ⟨.inr rfl, {1}, ⟨?_, nofun⟩, ?_⟩
    · rintro _ ⟨⟩
      exact Nat.le_refl 1
    · intro a ha
      rw [Finset.mem_singleton.mp ha]
      refine ⟨⟨_, rfl, by decide⟩, fun d hd => ?_⟩
      exact ⟨2, _, rfl, rfl, rfl, fulfils_snap List.mem_cons_self hd⟩
  obtain ⟨bound, hbound⟩ := h.complete anyCamera ⟨1, rfl, rfl⟩ henough (fun _ => {}) fun _ => rfl
  have hraised : (run (exec {}) (bindDependency AutoResolve.lab [] anyCamera) (fun _ => {})
      (snapLab [2, 3])).result = .error (.multipleObjectsReturned "Implementation") := by rfl
  rw [hraised] at hbound
  cases hbound

end Backend
end Rekuest
