import Rekuest.Matching.Legacy
import Rekuest.Store

/-!
# Rekuest.Matching.StateDemands

State demands: the filter that is made of one, and the states that it keeps.

* `stateDemandStateFilters`: the filter. Its definitions are found by the legacy scanner.
* `StateDemandInput.Asks`: what a demand declares. A hash stands for everything else.
* `state_demands`: a demand gives the states that it asks for where the hash stands alone, or without
  a hash, the matches are taken and nothing that is set is left out.
-/

namespace Rekuest

/-- `StateDemandInput`. Matches and protocols that are absent are read as empty ones. -/
structure StateDemandInput where
  hash : Option String := none
  key : Option String := none
  app : Option String := none
  matches_ : List Managers.PortMatch := []
  protocols : List String := []

namespace Managers

open Fallible Interleave Sql

/-! ## The filter -/

/-- The keyword arguments of a filter on states. -/
structure StateFilters where
  key : Option String := none
  appIdentifier : Option String := none
  definitionHash : Option String := none
  definitionIds : Option (List (Option SqlValue)) := none

def StateFilters.isEmpty (filters : StateFilters) : Bool :=
  filters.key.isNone && filters.appIdentifier.isNone && filters.definitionHash.isNone &&
    filters.definitionIds.isNone

/-- A search that is refused is a `ValueError`. -/
def raising {α : Type} (x : Except ValueError α) : Except Error α :=
  x.mapError fun e => .valueError e.message

/-- `_execute_ids`. The server takes no statement with an empty `WHERE`. -/
def executeIds (D : Dialect JsonOp JsonTest SqlValue) (db : String → List (Row SqlValue))
    (model : String) (b : Built) : Except Error (List (Option SqlValue)) :=
  if Cond.allWellFormed b.conditions then
    .ok (selectIds D db b.params model model b.conditions)
  else .error (.databaseError "syntax error")

/-- `get_state_ids_by_demands`. -/
def getStateIdsByDemands (D : Dialect JsonOp JsonTest SqlValue) (db : String → List (Row SqlValue))
    (ms : List PortMatch) : Except Error (List (Option SqlValue)) := do
  let b ← raising (buildStateParams ms "facade_statedefinition")
  executeIds D db "facade_statedefinition" b

/-- The definitions that matches find, where there are matches. -/
def definitionIds (D : Dialect JsonOp JsonTest SqlValue) (db : String → List (Row SqlValue))
    (ms : List PortMatch) : Except Error (Option (List (Option SqlValue))) :=
  if ms.isEmpty then return none else return some (← getStateIdsByDemands D db ms)

/-- `if not filters: raise ValueError(...)`. -/
def requireFilters (about : String) (filters : StateFilters) : Except Error StateFilters :=
  if filters.isEmpty then throw (.valueError ("No search params provided" ++ about))
  else return filters

/-- `state_demand_state_filters`. What is empty is falsy, and no protocol is read. -/
def stateDemandStateFilters (D : Dialect JsonOp JsonTest SqlValue)
    (db : String → List (Row SqlValue)) (repr : StateDemandInput → String)
    (demand : StateDemandInput) : Except Error StateFilters := do
  let ids ← definitionIds D db demand.matches_
  requireFilters (" " ++ repr demand)
    { key := truthy demand.key
      appIdentifier := truthy demand.app
      definitionHash := truthy demand.hash
      definitionIds := ids }

/-- `IN`, of a key. -/
def inIds (ids : List (Option SqlValue)) (key : Nat) : Bool :=
  ids.any fun id => same SqlValue.equal id (some (.int key)) == some true

/-- The filter keeps the state. -/
def StateFilters.keeps (db : String → List (Row SqlValue)) (filters : StateFilters)
    (state : State) : Bool :=
  filters.key.all (fun key => state.key = some key) &&
    filters.appIdentifier.all (fun app => state.appIdentifier = some app) &&
    filters.definitionHash.all (fun hash => (db "facade_statedefinition").any fun row =>
      same SqlValue.equal (row "id") (some (.int state.definition)) == some true &&
        same SqlValue.equal (row "hash") (some (.text hash)) == some true) &&
    filters.definitionIds.all fun ids => inIds ids state.definition

/-! ## State definitions -/

/-- What the filter reads of a state definition. -/
structure Schema where
  hash : String
  ports : List Json

def Schema.row (id : Nat) (schema : Schema) : Row SqlValue := fun column =>
  if column = "id" then some (.int id)
  else if column = "hash" then some (.text schema.hash)
  else if column = "ports" then some (.json (.arr schema.ports)) else none

/-- The tables as the statements see them. -/
def schemaTables (schemas : Table Schema) : String → List (Row SqlValue) := fun table =>
  if table = "facade_statedefinition" then
    (schemas.select fun _ _ => true).map fun s => s.2.row s.1
  else []

section

variable {schemas : Table Schema} {id : Nat} {schema : Schema}

theorem mem_schemaTables {row : Row SqlValue} :
    row ∈ schemaTables schemas "facade_statedefinition" ↔
      ∃ id schema, schemas.get id = some schema ∧ schema.row id = row := by
  simp only [schemaTables, if_true, List.mem_map, Prod.exists, Table.mem_select, and_true]

@[simp] theorem row_id : schema.row id "id" = some (.int id) := rfl

@[simp] theorem row_hash : schema.row id "hash" = some (.text schema.hash) := rfl

@[simp] theorem row_ports : schema.row id "ports" = some (.json (.arr schema.ports)) := rfl

theorem same_int {m n : Nat} :
    same SqlValue.equal (some (.int m)) (some (.int n)) = some true ↔ m = n := by
  simp only [same, SqlValue.equal, Option.some.injEq, decide_eq_true_eq]
  exact Int.natCast_inj

theorem same_text {s t : String} :
    same SqlValue.equal (some (.text s)) (some (.text t)) = some true ↔ s = t := by
  simp [same, SqlValue.equal]

theorem inIds_iff {ids : List (Option SqlValue)} {key : Nat} :
    inIds ids key = true ↔ ∃ x ∈ ids, same SqlValue.equal x (some (.int key)) = some true := by
  simp only [inIds, List.any_eq_true, beq_iff_eq]

/-- The filter, of a state whose definition is there. -/
theorem keeps_iff {filters : StateFilters} {state : State}
    (hschema : schemas.get state.definition = some schema) :
    filters.keeps (schemaTables schemas) state = true ↔
      (∀ key, filters.key = some key → state.key = some key) ∧
      (∀ app, filters.appIdentifier = some app → state.appIdentifier = some app) ∧
      (∀ hash, filters.definitionHash = some hash → schema.hash = hash) ∧
      ∀ ids, filters.definitionIds = some ids → inIds ids state.definition = true := by
  have hhash : ∀ hash, ((schemaTables schemas "facade_statedefinition").any fun row =>
      same SqlValue.equal (row "id") (some (.int state.definition)) == some true &&
        same SqlValue.equal (row "hash") (some (.text hash)) == some true) = true ↔
      schema.hash = hash := by
    intro hash
    simp only [List.any_eq_true, Bool.and_eq_true, beq_iff_eq]
    constructor
    · rintro ⟨row, hrow, hid, hhash⟩
      obtain ⟨id, schema', hget, rfl⟩ := mem_schemaTables.mp hrow
      rw [row_id, same_int] at hid
      rw [row_hash, same_text] at hhash
      rw [hid, hschema] at hget
      cases hget
      exact hhash
    · intro h
      refine ⟨schema.row state.definition, mem_schemaTables.mpr ⟨_, _, hschema, rfl⟩, ?_, ?_⟩
      · exact same_int.mpr rfl
      · exact same_text.mpr h
  simp only [StateFilters.keeps, Bool.and_eq_true, Option.all_eq_true, decide_eq_true_eq, hhash,
    and_assoc]

/-- The matches of a demand search the definitions whose ports pass. -/
theorem inIds_selectIds {pathMatch : String → String → Option Bool} {ms : List PortMatch}
    {model : String} {b : Built} (h : LegacyStatement ms model {} "ports" b)
    (hschema : schemas.get id = some schema) :
    inIds (selectIds (postgres pathMatch) (schemaTables schemas) b.params "facade_statedefinition"
        model b.conditions) id = true ↔
      Found (fun m place item => m.Scans place item) ms schema.ports := by
  have hhold : ∀ {id' : Nat} {schema' : Schema},
      (Cond.evalAll (postgres pathMatch) (schemaTables schemas) b.params.get?
          [(model, schema'.row id')] b.conditions == some true) = true ↔
        Found (fun m place item => m.Scans place item) ms schema'.ports := by
    intro id' schema'
    rw [beq_iff_eq, evalAll_eq_true]
    exact h.found_iff rfl
  rw [inIds_iff]
  simp only [selectIds, List.mem_map, List.mem_filter]
  constructor
  · rintro ⟨x, ⟨row, ⟨hrow, hkept⟩, rfl⟩, hsame⟩
    obtain ⟨id', schema', hget, rfl⟩ := mem_schemaTables.mp hrow
    rw [row_id, same_int] at hsame
    rw [hsame, hschema] at hget
    cases hget
    exact hhold.mp hkept
  · intro hfound
    refine ⟨_, ⟨schema.row id, ⟨mem_schemaTables.mpr ⟨id, schema, hschema, rfl⟩, ?_⟩, rfl⟩, ?_⟩
    · exact hhold.mpr hfound
    · exact same_int.mpr rfl

end

/-! ## What the filter asks -/

/-- The guard and the server take the matches. -/
def Searchable (ms : List PortMatch) : Prop :=
  PortMatch.AllSupported ms ∧ ∀ m ∈ ms, m.Constrains

theorem raising_ok_iff {α : Type} {x : Except ValueError α} {a : α} :
    raising x = .ok a ↔ x = .ok a := by
  cases x <;> simp [raising, Except.mapError]

section

variable {pathMatch : String → String → Option Bool} {tables : String → List (Row SqlValue)}
  {ms : List PortMatch}

theorem getStateIds_ok_iff {ids : List (Option SqlValue)} (hms : ms ≠ []) :
    getStateIdsByDemands (postgres pathMatch) tables ms = .ok ids ↔
      Searchable ms ∧ selectIds (postgres pathMatch) tables
        (buildItemQueries "ports" ms).params "facade_statedefinition" "facade_statedefinition"
        (buildItemQueries "ports" ms).conditions = ids := by
  have hexecute : ∀ b : Built, executeIds (postgres pathMatch) tables
      "facade_statedefinition" b = .ok ids ↔ Cond.allWellFormed b.conditions = true ∧
        selectIds (postgres pathMatch) tables b.params "facade_statedefinition"
          "facade_statedefinition" b.conditions = ids := by
    intro b
    unfold executeIds
    by_cases hwell : Cond.allWellFormed b.conditions = true <;> simp [hwell]
  unfold getStateIdsByDemands
  simp only [bind_ok_iff, raising_ok_iff, hexecute]
  constructor
  · rintro ⟨b, hb, hwell, hids⟩
    have hstatement := LegacyStatement.states b hb
    obtain ⟨hguard, rfl, _⟩ := hstatement.eq_append
    have heq : buildItemQueries "ports" ms ++ ⟨lengthClauses "ports" {}, []⟩ =
        buildItemQueries "ports" ms := by
      show Built.mk (_ ++ []) (_ ++ []) = _
      rw [List.append_nil, List.append_nil]
    rw [heq] at hids
    exact ⟨⟨hguard, hstatement.wellFormed.mp hwell⟩, hids⟩
  · rintro ⟨⟨hguard, hconstrains⟩, hids⟩
    have hstatement : LegacyStatement ms "facade_statedefinition" {} "ports" _ :=
      exists_statement hms hguard
    refine ⟨_, ?_, hstatement.wellFormed.mpr hconstrains, hids⟩
    refine bind_ok_iff.mpr ⟨(), (rejectUnsupported_ok_iff _ _).mpr hguard, ?_⟩
    refine requireClauses_ok_iff.mpr ⟨rfl, ?_⟩
    exact hstatement.eq_append.2.2

theorem definitionIds_ok_iff {ids : Option (List (Option SqlValue))} :
    definitionIds (postgres pathMatch) tables ms = .ok ids ↔
      (ms = [] ∧ ids = none) ∨ (ms ≠ [] ∧ Searchable ms ∧ ids = some (selectIds
        (postgres pathMatch) tables (buildItemQueries "ports" ms).params
        "facade_statedefinition" "facade_statedefinition"
        (buildItemQueries "ports" ms).conditions)) := by
  unfold definitionIds
  by_cases hms : ms = []
  · subst hms
    rw [if_pos (by rfl), pure_ok_iff]
    constructor
    · rintro rfl
      exact .inl ⟨rfl, rfl⟩
    · rintro (⟨_, rfl⟩ | ⟨hne, _⟩)
      · rfl
      · exact absurd rfl hne
  · rw [if_neg (by simpa using hms)]
    simp only [bind_ok_iff, getStateIds_ok_iff hms, pure_ok_iff, hms, false_and, false_or, ne_eq,
      not_false_eq_true, true_and]
    constructor
    · rintro ⟨_, ⟨hsearch, rfl⟩, rfl⟩
      exact ⟨hsearch, rfl⟩
    · rintro ⟨hsearch, rfl⟩
      exact ⟨_, ⟨hsearch, rfl⟩, rfl⟩

theorem requireFilters_ok_iff {about : String} {filters filters' : StateFilters} :
    requireFilters about filters = .ok filters' ↔ filters.isEmpty = false ∧ filters = filters' := by
  unfold requireFilters
  by_cases hempty : filters.isEmpty = true
  · rw [if_pos hempty]
    refine iff_of_false ?_ ?_
    · intro h
      cases h
    · rintro ⟨h, _⟩
      rw [hempty] at h
      cases h
  · rw [if_neg hempty, pure_ok_iff]
    exact (and_iff_right (Bool.eq_false_iff.mpr hempty)).symm

end

end Managers

/-! ## Demands -/

namespace StateDemandInput

open Fallible Interleave Managers Sql

/-- No criterion is set. -/
def Unset (d : StateDemandInput) : Prop :=
  d.hash = none ∧ d.key = none ∧ d.app = none ∧ d.matches_ = [] ∧ d.protocols = []

/-- What a demand declares, of a state of this definition: the definition has its hash, or without
a hash, the state has all that is set. -/
structure Asks (accepts : List MatchDescriptor → Json → Prop) (implements : Nat → String → Prop)
    (schema : Schema) (state : State) (d : StateDemandInput) : Prop where
  hash : ∀ hash, d.hash = some hash → schema.hash = hash
  key : d.hash = none → ∀ key, d.key = some key → state.key = some key
  app : d.hash = none → ∀ app, d.app = some app → state.appIdentifier = some app
  ports : d.hash = none →
    Found (fun m place item => m.FullyRead accepts place (some item)) d.matches_ schema.ports
  protocols : d.hash = none → ∀ name ∈ d.protocols, implements state.definition name

/-- The demand means what it declares: unset it is refused, and set it gives a filter, which keeps
the states that it asks for. -/
structure Means (accepts : List MatchDescriptor → Json → Prop)
    (pathMatch : String → String → Option Bool) (repr : StateDemandInput → String)
    (d : StateDemandInput) : Prop where
  refused : d.Unset → ∀ schemas, ∃ message,
    stateDemandStateFilters (postgres pathMatch) (schemaTables schemas) repr d =
      .error (.valueError message)
  selects : ¬ d.Unset → ∀ schemas : Table Schema, ∃ filters,
    stateDemandStateFilters (postgres pathMatch) (schemaTables schemas) repr d = .ok filters ∧
      ∀ (implements : Nat → String → Prop) (state : State) (schema : Schema),
        schemas.get state.definition = some schema →
          (filters.keeps (schemaTables schemas) state = true ↔
            d.Asks accepts implements schema state)

/-- Nothing is searched for: what is set is empty, or a protocol. -/
def Idle (d : StateDemandInput) : Prop :=
  truthy d.hash = none ∧ truthy d.key = none ∧ truthy d.app = none ∧ d.matches_ = []

/-- The hash stands alone. -/
def HashOnly (d : StateDemandInput) : Prop :=
  truthy d.hash ≠ none ∧ truthy d.key = none ∧ truthy d.app = none ∧ d.matches_ = []

/-- Nothing that is set is left out. -/
structure Read (d : StateDemandInput) : Prop where
  key : d.key ≠ some ""
  app : d.app ≠ some ""
  protocols : d.protocols = []
  ports : ∀ m ∈ d.matches_, m.Expressible

/-- What the filter keeps. -/
structure Filters (schema : Schema) (state : State) (d : StateDemandInput) : Prop where
  key : ∀ key, truthy d.key = some key → state.key = some key
  app : ∀ app, truthy d.app = some app → state.appIdentifier = some app
  hash : ∀ hash, truthy d.hash = some hash → schema.hash = hash
  ports : Found (fun m place item => m.Scans place item) d.matches_ schema.ports

section

variable {pathMatch : String → String → Option Bool} {schemas : Table Schema}
  {repr : StateDemandInput → String} {d : StateDemandInput} {filters : StateFilters}

/-- There is a filter where something is searched for and the search is not refused. -/
theorem filters_ok_iff {tables : String → List (Row SqlValue)} :
    stateDemandStateFilters (postgres pathMatch) tables repr d = .ok filters ↔
      ¬ d.Idle ∧ ∃ ids, definitionIds (postgres pathMatch) tables d.matches_ =
        .ok ids ∧ filters = ⟨truthy d.key, truthy d.app, truthy d.hash, ids⟩ := by
  have hidle : ∀ ids, definitionIds (postgres pathMatch) tables d.matches_ =
      .ok ids → ((StateFilters.mk (truthy d.key) (truthy d.app) (truthy d.hash) ids).isEmpty = false ↔
        ¬ d.Idle) := by
    intro ids hids
    have hnone : ids = none ↔ d.matches_ = [] := by
      rcases definitionIds_ok_iff.mp hids with ⟨hms, rfl⟩ | ⟨hms, _, rfl⟩
      · exact iff_of_true rfl hms
      · exact iff_of_false (by simp) hms
    rw [← Bool.not_eq_true, not_iff_not]
    simp only [StateFilters.isEmpty, Bool.and_eq_true, Option.isNone_iff_eq_none, hnone, Idle]
    constructor
    · rintro ⟨⟨⟨hkey, happ⟩, hhash⟩, hms⟩
      exact ⟨hhash, hkey, happ, hms⟩
    · rintro ⟨hhash, hkey, happ, hms⟩
      exact ⟨⟨⟨hkey, happ⟩, hhash⟩, hms⟩
  unfold stateDemandStateFilters
  simp only [bind_ok_iff, requireFilters_ok_iff]
  constructor
  · rintro ⟨ids, hids, hne, rfl⟩
    exact ⟨(hidle ids hids).mp hne, ids, hids, rfl⟩
  · rintro ⟨hne, ids, hids, rfl⟩
    exact ⟨ids, hids, (hidle ids hids).mpr hne, rfl⟩

/-- A filter was made: the guard and the server took the matches. -/
theorem searchable_of_filters {tables : String → List (Row SqlValue)}
    (h : stateDemandStateFilters (postgres pathMatch) tables repr d = .ok filters) :
    Searchable d.matches_ := by
  obtain ⟨_, ids, hids, _⟩ := filters_ok_iff.mp h
  rcases definitionIds_ok_iff.mp hids with ⟨hms, _⟩ | ⟨_, hsearch, _⟩
  · rw [hms]
    exact ⟨trivial, by simp⟩
  · exact hsearch

/-- The states that the filter keeps. -/
theorem keeps_iff_filters
    (h : stateDemandStateFilters (postgres pathMatch) (schemaTables schemas) repr d = .ok filters)
    {state : State} {schema : Schema} (hschema : schemas.get state.definition = some schema) :
    filters.keeps (schemaTables schemas) state = true ↔ d.Filters schema state := by
  obtain ⟨_, ids, hids, rfl⟩ := filters_ok_iff.mp h
  rw [keeps_iff hschema]
  have hports : (∀ ids', ids = some ids' → inIds ids' state.definition = true) ↔
      Found (fun m place item => m.Scans place item) d.matches_ schema.ports := by
    rcases definitionIds_ok_iff.mp hids with ⟨hms, rfl⟩ | ⟨hms, hsearch, rfl⟩
    · simp [hms, Found]
    · simp only [Option.some.injEq, forall_eq']
      exact inIds_selectIds (exists_statement hms hsearch.1) hschema
  rw [hports]
  constructor
  · rintro ⟨hkey, happ, hhash, hfound⟩
    exact ⟨hkey, happ, hhash, hfound⟩
  · rintro ⟨hkey, happ, hhash, hfound⟩
    exact ⟨hkey, happ, hhash, hfound⟩

/-- Unless nothing is searched for, there is a filter where the matches can be searched for. -/
theorem exists_filters (hidle : ¬ d.Idle) (hsearch : Searchable d.matches_) :
    ∃ filters,
      stateDemandStateFilters (postgres pathMatch) (schemaTables schemas) repr d = .ok filters := by
  by_cases hms : d.matches_ = []
  · exact ⟨_, filters_ok_iff.mpr ⟨hidle, _, definitionIds_ok_iff.mpr (.inl ⟨hms, rfl⟩), rfl⟩⟩
  · exact ⟨_, filters_ok_iff.mpr
      ⟨hidle, _, definitionIds_ok_iff.mpr (.inr ⟨hms, hsearch, rfl⟩), rfl⟩⟩

/-- A demand that reads whole keeps what it asks for. -/
theorem filters_iff_asks {accepts : List MatchDescriptor → Json → Prop}
    {implements : Nat → String → Prop} {schema : Schema} {state : State} (hhash : d.hash = none)
    (hguard : PortMatch.AllSupported d.matches_) (hread : d.Read) :
    d.Filters schema state ↔ d.Asks accepts implements schema state := by
  obtain ⟨hkey, happ, hprotocols, hports⟩ := hread
  have hset : ∀ {s : Option String}, s ≠ some "" → ∀ v, truthy s = some v ↔ s = some v := by
    intro s hs v
    rw [truthy_eq_some]
    refine and_iff_left_of_imp ?_
    rintro hv rfl
    exact hs hv
  have hfound : Found (fun m place item => m.Scans place item) d.matches_ schema.ports ↔
      Found (fun m place item => m.FullyRead accepts place (some item)) d.matches_ schema.ports := by
    refine forall₂_congr fun m hm => exists_congr fun place => exists_congr fun item =>
      and_congr_right fun _ => ?_
    constructor
    · intro hscans
      exact (hports m hm).fullyRead (allSupported_iff.mp hguard m hm)
        ((hports m hm).plain.scans_iff.mp hscans)
    · intro hread
      exact (hports m hm).plain.scans_iff.mpr hread.documented
  constructor
  · rintro ⟨hkeys, happs, _, hscans⟩
    refine ⟨?_, fun _ key hk => hkeys key ((hset hkey key).mpr hk),
      fun _ app ha => happs app ((hset happ app).mpr ha), fun _ => hfound.mp hscans, ?_⟩
    · intro hash h
      rw [hhash] at h
      cases h
    · intro _ name hname
      rw [hprotocols] at hname
      cases hname
  · rintro ⟨_, hkeys, happs, hfull, _⟩
    refine ⟨fun key hk => hkeys hhash key ((hset hkey key).mp hk),
      fun app ha => happs hhash app ((hset happ app).mp ha), ?_, hfound.mpr (hfull hhash)⟩
    intro hash h
    rw [hhash] at h
    cases h

/-- Where it is exactly the states that are asked for that are given. A demand that sets nothing is
among them. -/
def Honoured (d : StateDemandInput) : Prop :=
  d.HashOnly ∨
    (d.hash = none ∧ Searchable d.matches_ ∧ (Contradictory d.matches_ ∨ d.Read))

end

section

variable {accepts : List MatchDescriptor → Json → Prop}
  {pathMatch : String → String → Option Bool} {repr : StateDemandInput → String}
  {d : StateDemandInput}

theorem Unset.idle (h : d.Unset) : d.Idle := by
  obtain ⟨hhash, hkey, happ, hms, _⟩ := h
  rw [Idle, hhash, hkey, happ]
  exact ⟨rfl, rfl, rfl, hms⟩

/-- An idle demand is refused with its text. -/
theorem Idle.refused (h : d.Idle) (schemas : Table Schema) :
    stateDemandStateFilters (postgres pathMatch) (schemaTables schemas) repr d =
      .error (.valueError ("No search params provided" ++ (" " ++ repr d))) := by
  obtain ⟨hhash, hkey, happ, hms⟩ := h
  simp only [stateDemandStateFilters, hms, hhash, hkey, happ]
  rfl

/-- A demand with no more than what is read, and of which nothing is searched for, sets nothing. -/
theorem Idle.unset (hidle : d.Idle) (hhash : d.hash = none) (hread : d.Read) : d.Unset := by
  obtain ⟨_, hkey, happ, hms⟩ := hidle
  obtain ⟨hkey', happ', hprotocols, _⟩ := hread
  have hnone : ∀ {s : Option String}, truthy s = none → s ≠ some "" → s = none := by
    intro s hs hne
    refine Option.eq_none_iff_forall_ne_some.mpr fun v hv => ?_
    have hempty : v ≠ "" := fun h => hne (h ▸ hv)
    rw [truthy_eq_some.mpr ⟨hv, hempty⟩] at hs
    cases hs
  exact ⟨hhash, hnone hkey hkey', hnone happ happ', hms, hprotocols⟩

/-- A set demand that means what it declares is searched for. -/
theorem Means.searches (h : d.Means accepts pathMatch repr) (hset : ¬ d.Unset) :
    ¬ d.Idle ∧ Searchable d.matches_ := by
  obtain ⟨_, hfilters, _⟩ := h.selects hset Table.empty
  exact ⟨(filters_ok_iff.mp hfilters).1, searchable_of_filters hfilters⟩

/-- One state of one definition, and the filter on it. -/
theorem Means.filters_iff (h : d.Means accepts pathMatch repr) (hset : ¬ d.Unset)
    (implements : Nat → String → Prop) (schema : Schema) (state : State)
    (hdefinition : state.definition = 1) :
    d.Filters schema state ↔ d.Asks accepts implements schema state := by
  have hschema : (Table.empty.insert schema).get state.definition = some schema := by
    rw [hdefinition]
    rfl
  obtain ⟨filters, hfilters, hkeeps⟩ := h.selects hset (Table.empty.insert schema)
  rw [← keeps_iff_filters hfilters hschema]
  exact hkeeps implements state schema hschema

/-- Ports that the matches pass, unless they contradict each other. -/
theorem exists_ports {ms : List PortMatch} (hfree : ¬ Contradictory ms) :
    ∃ ports, Found (fun m place item => m.Scans place item) ms ports := by
  obtain ⟨bound, hbound⟩ := exists_bound ms
  obtain ⟨n, hn⟩ := exists_children ms
  exact ⟨canonicalItems bound n ms, fun m hm => scans_canonical hfree hbound hn hm⟩

/-- A demand with a hash that means what it declares has nothing but the hash. -/
theorem Means.hashOnly (h : d.Means accepts pathMatch repr) {hash : String}
    (hhash : d.hash = some hash) : d.HashOnly := by
  have hset : ¬ d.Unset := by
    intro hunset
    rw [hunset.1] at hhash
    cases hhash
  have hasks : ∀ (schema : Schema) (state : State), schema.hash = hash →
      d.Asks accepts (fun _ _ => True) schema state := by
    intro schema state hsame
    have hnone : d.hash ≠ none := by simp [hhash]
    refine ⟨?_, fun h => absurd h hnone, fun h => absurd h hnone, fun h => absurd h hnone,
      fun h => absurd h hnone⟩
    intro hash' hhash'
    rw [hsame]
    exact Option.some.inj (hhash.symm.trans hhash')
  -- a state without key and app, of a definition without ports
  have hbare := (h.filters_iff hset (fun _ _ => True) ⟨hash, []⟩
    { interface := "", agent := 0, definition := 1 } rfl).mpr (hasks _ _ rfl)
  refine ⟨?_, ?_, ?_, ?_⟩
  · -- an empty hash is left out: another definition is kept as well
    intro hempty
    have hfree : ¬ Contradictory d.matches_ := fun hcontra => hcontra.not_scans hbare.ports
    obtain ⟨ports, hports⟩ := exists_ports hfree
    have hkept : d.Filters ⟨hash ++ "x", ports⟩
        { interface := "", agent := 0, definition := 1, key := d.key, appIdentifier := d.app } := by
      refine ⟨fun key hkey => (truthy_eq_some.mp hkey).1, fun app happ => (truthy_eq_some.mp happ).1,
        ?_, hports⟩
      intro hash' hhash'
      rw [hempty] at hhash'
      cases hhash'
    have hsame := ((h.filters_iff hset (fun _ _ => True) _ _ rfl).mp hkept).hash hash hhash
    have hlength := congrArg String.length hsame
    simp at hlength
  · refine Option.eq_none_iff_forall_ne_some.mpr fun key hkey => ?_
    cases hbare.key key hkey
  · refine Option.eq_none_iff_forall_ne_some.mpr fun app happ => ?_
    cases hbare.app app happ
  · refine List.eq_nil_iff_forall_not_mem.mpr fun m hm => ?_
    obtain ⟨place, item, hitem, _⟩ := hbare.ports m hm
    cases hitem

/-- A demand without a hash that means what it declares leaves nothing out. -/
theorem Means.read (h : d.Means accepts pathMatch repr) (hset : ¬ d.Unset)
    (hhash : d.hash = none) (hfree : ¬ Contradictory d.matches_) : d.Read := by
  have hkept : ∀ (key app : Option String) (ports : List Json),
      (∀ s, truthy d.key = some s → key = some s) → (∀ s, truthy d.app = some s → app = some s) →
      Found (fun m place item => m.Scans place item) d.matches_ ports →
        d.Asks accepts (fun _ _ => False) ⟨"", ports⟩
          { interface := "", agent := 0, definition := 1, key := key, appIdentifier := app } := by
    intro key app ports hkey happ hports
    refine (h.filters_iff hset (fun _ _ => False) _ _ rfl).mp ⟨hkey, happ, ?_, hports⟩
    intro hash h
    rw [hhash] at h
    cases h
  have hown : ∀ {s : Option String} (v : String), truthy s = some v → s = some v :=
    fun v hv => (truthy_eq_some.mp hv).1
  obtain ⟨ports, hports⟩ := exists_ports hfree
  refine ⟨?_, ?_, ?_, ?_⟩
  · intro hkey
    have hask := hkept none d.app ports (fun s hs => by
      rw [hkey] at hs
      cases hs) hown hports
    cases hask.key hhash "" hkey
  · intro happ
    have hask := hkept d.key none ports hown (fun s hs => by
      rw [happ] at hs
      cases hs) hports
    cases hask.app hhash "" happ
  · refine List.eq_nil_iff_forall_not_mem.mpr fun name hname => ?_
    exact (hkept d.key d.app ports hown hown hports).protocols hhash name hname
  · exact expressible_of_fullyRead hfree fun items hitems =>
      (hkept d.key d.app items hown hown hitems).ports hhash

/-- A hash that stands alone keeps what the demand asks for. -/
theorem HashOnly.filters_iff {implements : Nat → String → Prop} {schema : Schema} {state : State}
    (h : d.HashOnly) : d.Filters schema state ↔ d.Asks accepts implements schema state := by
  obtain ⟨hhash, hkey, happ, hms⟩ := h
  obtain ⟨hash, hhash⟩ := Option.ne_none_iff_exists'.mp hhash
  have hset := (truthy_eq_some.mp hhash).1
  have hnone : d.hash ≠ none := by simp [hset]
  constructor
  · intro hfilter
    refine ⟨?_, fun h => absurd h hnone, fun h => absurd h hnone, fun h => absurd h hnone,
      fun h => absurd h hnone⟩
    intro hash' hset'
    rw [hset] at hset'
    cases hset'
    exact hfilter.hash hash hhash
  · intro hasks
    refine ⟨by simp [hkey], by simp [happ], ?_, by simp [hms, Found]⟩
    intro hash' hhash'
    exact hasks.hash hash' (truthy_eq_some.mp hhash').1

/-- Matches that contradict each other keep nothing, and nothing is asked for. -/
theorem filters_iff_of_contradictory {implements : Nat → String → Prop} {schema : Schema}
    {state : State} (hhash : d.hash = none) (hcontra : Contradictory d.matches_) :
    d.Filters schema state ↔ d.Asks accepts implements schema state := by
  refine iff_of_false (fun hfilter => hcontra.not_scans hfilter.ports) fun hasks => ?_
  have hdocumented : Found (fun m place item => m.Documented place item) d.matches_
      schema.ports := by
    intro m hm
    obtain ⟨place, item, hitem, hread⟩ := hasks.ports hhash m hm
    exact ⟨place, item, hitem, hread.documented⟩
  exact hcontra.not_documented hdocumented

/-- Matches that contradict each other are there. -/
theorem not_idle_of_contradictory (hcontra : Contradictory d.matches_) : ¬ d.Idle := by
  rintro ⟨_, _, _, hms⟩
  have hfound : Found (fun m place item => m.Scans place item) d.matches_ [] := by
    simp [hms, Found]
  exact hcontra.not_scans hfound

/-- **State demands.** A demand means what it declares exactly where the hash stands alone, and
where, without a hash, the matches can be searched for and either contradict each other or nothing
that is set is left out. -/
theorem state_demands : d.Means accepts pathMatch repr ↔ d.Honoured := by
  constructor
  · intro h
    by_cases hunset : d.Unset
    · obtain ⟨hhash, hkey, happ, hms, hprotocols⟩ := hunset
      refine .inr ⟨hhash, ?_, .inr ⟨by simp [hkey], by simp [happ], hprotocols, by simp [hms]⟩⟩
      rw [hms]
      exact ⟨trivial, by simp⟩
    cases hhash : d.hash with
    | some hash => exact .inl (h.hashOnly hhash)
    | none =>
      refine .inr ⟨hhash, (h.searches hunset).2, ?_⟩
      by_cases hcontra : Contradictory d.matches_
      · exact .inl hcontra
      · exact .inr (h.read hunset hhash hcontra)
  · intro hhonoured
    refine ⟨fun hunset schemas => ⟨_, hunset.idle.refused schemas⟩, fun hset schemas => ?_⟩
    have hsearched : ¬ d.Idle ∧ Searchable d.matches_ := by
      rcases hhonoured with hhash | ⟨hhash, hsearch, hcontra | hread⟩
      · refine ⟨fun hidle => hhash.1 hidle.1, ?_⟩
        rw [hhash.2.2.2]
        exact ⟨trivial, by simp⟩
      · exact ⟨not_idle_of_contradictory hcontra, hsearch⟩
      · exact ⟨fun hidle => hset (hidle.unset hhash hread), hsearch⟩
    obtain ⟨filters, hfilters⟩ := exists_filters hsearched.1 hsearched.2
    refine ⟨filters, hfilters, fun implements state schema hschema => ?_⟩
    rw [keeps_iff_filters hfilters hschema]
    rcases hhonoured with hhash | ⟨hhash, hsearch, hcontra | hread⟩
    · exact hhash.filters_iff
    · exact filters_iff_of_contradictory hhash hcontra
    · exact filters_iff_asks hhash hsearch.1 hread

/-- The definition by its hash, and a key. -/
def hashAndKey : StateDemandInput := { hash := some "abc", key := some "counter" }

/-- The key is asked of the states of the definition, which the hash alone should select. -/
theorem hash_with_key : ¬ hashAndKey.Means (fun _ _ => True) (fun _ _ => none) fun _ => "" := by
  intro h
  have hset : ¬ hashAndKey.Unset := by
    intro hunset
    cases hunset.1
  have hasks : hashAndKey.Asks (fun _ _ => True) (fun _ _ => True) ⟨"abc", []⟩
      { interface := "level", agent := 1, definition := 1, key := some "level" } := by
    refine ⟨?_, ?_, ?_, ?_, ?_⟩
    · intro hash hhash
      exact Option.some.inj hhash
    all_goals
      intro hnone
      cases hnone
  have hkept := (h.filters_iff hset (fun _ _ => True) _ _ rfl).mpr hasks
  have hkey := hkept.key "counter" rfl
  simp at hkey

end
end StateDemandInput
end Rekuest
