import Rekuest.AutoResolve.Walk

/-!
# Rekuest.AutoResolve.Runs

Whole runs of the resolver, from tables in any state.

* `ends_autoResolve`: with fuel for every implementation with dependencies the resolver ends.
* `resolves_once`: it calls itself at most once for an implementation, and creates at most one row
  of each kind for one.
* `failed_resolution`: what an error leaves behind.
-/

namespace Rekuest

open Interleave Managers Sql

namespace AutoResolve

open Fallible Fallible.Attempt

/-- The tables before a run. -/
def start (resolutions : Table Resolution) (resolved : Table ResolvedDependency) : Resolving where
  resolutions := resolutions
  resolvedDependencies := resolved

section

variable {V : Server} {db : Database} {organization : Organization}
  {implementation : ImplementationId} {resolution : Nat} {s : Resolving}

variable (V organization implementation) in
/-- The first call, with a set of its own. -/
theorem ends_autoResolve {fuel : Nat} (hfuel : (dependents db).card < fuel)
    (hlt : resolution < s.resolutions.next) (hvisited : s.visited = ∅) :
    Ends (autoResolve V db organization fuel implementation resolution) s
      (fun _ s' => ∃ t : Resolving, s' = { t with visited := ∅ } ∧
        Answered V db organization implementation resolution (fun _ _ => True) Nowhere
          (fun _ e => Answers V db organization e.turns implementation resolution) s () t)
      (Raised V db organization implementation resolution (fun _ _ => True) Nowhere s) := by
  obtain ⟨n, rfl⟩ := Nat.exists_eq_add_one_of_ne_zero (Nat.ne_of_gt (Nat.lt_of_le_of_lt
    (Nat.zero_le _) hfuel))
  have hpending : pending db s < n + 1 := by
    rw [pending, hvisited, Finset.sdiff_empty]
    exact hfuel
  refine ends_bind (ends_look (ends_bind ?_))
  refine (ends_resolveAll (autoResolve_resolves V db organization n) hlt hpending).mono ?_
    fun _ _ h => h
  intro _ t ht
  refine ends_write ?_
  rw [if_pos hvisited]
  exact ⟨t, rfl, ht⟩

/-- No two of the new rows agree on this. -/
def CreatedOnce {α β : Type} (f : α → β) (before after : Table α) : Prop :=
  ∀ k k' a a', before.get k = none → before.get k' = none → after.get k = some a →
    after.get k' = some a' → f a = f a' → k = k'

theorem createdOnce_insertAll {α β : Type} {f : α → β} {table : Table α} {as : List α}
    (h : (as.map f).Nodup) : CreatedOnce f table (table.insertAll as) := by
  have hnew : ∀ {k : Nat} {a : α}, table.get k = none → (table.insertAll as).get k = some a →
      table.next ≤ k ∧ as[k - table.next]? = some a := by
    intro k a hnone hsome
    have hge : table.next ≤ k := by
      by_contra hlt
      rw [Table.get_insertAll_of_lt (by omega), hnone] at hsome
      cases hsome
    exact ⟨hge, Table.get_insertAll_new hge hsome⟩
  intro k k' a a' hk hk' ha ha' hsame
  obtain ⟨hge, hget⟩ := hnew hk ha
  obtain ⟨hge', hget'⟩ := hnew hk' ha'
  have hlt := (List.getElem?_eq_some_iff.mp hget).1
  have hmapped : (as.map f)[k - table.next]? = (as.map f)[k' - table.next]? := by
    rw [List.getElem?_map, List.getElem?_map, hget, hget', Option.map_some, Option.map_some, hsame]
  have hlt' : k - table.next < (as.map f).length := by
    rw [List.length_map]
    exact hlt
  have hindex := (List.getElem?_inj hlt' h).mp hmapped
  omega

/-- **No implementation is resolved twice.** Whatever the graph and whatever orders the rows come
in, fuel for all implementations with dependencies is enough for the resolver to end, and it ends
the same with more. It calls itself at most once for each of them, and creates at most one
resolution and one resolved dependency for an implementation. -/
theorem resolves_once (V : Server) (db : Database) (organization : Organization)
    (implementation : ImplementationId) {resolution : Nat} {resolutions : Table Resolution}
    (resolved : Table ResolvedDependency) {r : Resolution}
    (hr : resolutions.get resolution = some r) :
    ∃ result s', (∀ fuel, (dependents db).card < fuel →
        autoResolve V db organization fuel implementation resolution (start resolutions resolved) =
          some (result, s')) ∧
      s'.calls.Nodup ∧ (∀ i ∈ s'.calls, hasDependencies db i = true) ∧
      s'.calls.length ≤ (dependents db).card ∧
      CreatedOnce ResolvedDependency.implementation resolved s'.resolvedDependencies ∧
      CreatedOnce Resolution.implementation resolutions s'.resolutions := by
  have hlt : resolution < (start resolutions resolved).resolutions.next := Table.lt_next hr
  have hfacts : ∃ result s' t e, autoResolve V db organization ((dependents db).card + 1)
        implementation resolution (start resolutions resolved) = some (result, s') ∧
      Account V db organization implementation resolution (fun _ _ => True) Nowhere
        (start resolutions resolved) t e ∧ s'.resolutions = t.resolutions ∧
      s'.resolvedDependencies = t.resolvedDependencies ∧ s'.calls = t.calls := by
    rcases ends_autoResolve V organization implementation (Nat.lt_succ_self (dependents db).card)
      hlt rfl with ⟨_, _, hrun, t, rfl, e, ha, _⟩ | ⟨_, t, hrun, e, ha, _⟩
    · exact ⟨_, _, t, e, hrun, ha, rfl, rfl, rfl⟩
    · exact ⟨_, _, t, e, hrun, ha, rfl, rfl, rfl⟩
  obtain ⟨result, s', t, e, hrun, ha, hresolutions, hresolved, hcalls⟩ := hfacts
  have hcalls' : s'.calls = e.calls := by
    rw [hcalls, ha.adds.calls]
    rfl
  refine ⟨result, s', fun fuel hfuel => ?_, ?_, ?_, ?_, ?_, ?_⟩
  · exact autoResolve_extends V db organization hfuel implementation resolution _ _ hrun
  · rw [hcalls']
    exact ha.callsNodup
  · rw [hcalls']
    exact fun i hi => (mem_dependents.mp (ha.called i hi).2.2.1).2
  · rw [hcalls', ← List.toFinset_card_of_nodup ha.callsNodup]
    exact Finset.card_le_card fun i hi => (ha.called i (List.mem_toFinset.mp hi)).2.2.1
  · rw [hresolved, ha.adds.resolved]
    exact createdOnce_insertAll ha.rowsNodup
  · rw [hresolutions, ha.adds.resolutions]
    exact createdOnce_insertAll (ha.calls ▸ ha.callsNodup)

/-! ## The mutation -/

variable {fuel : Nat} {resolutions : Table Resolution} {resolved : Table ResolvedDependency}
  {result : Except Error Nat} {s' : Resolving}

variable (V organization) in
/-- The mutation, of an implementation that is there and whose name fits: a run in the resolution
that it creates. -/
theorem ends_autoResolveMutation {i : Implementation}
    (hi : db.implementations.get implementation = some i)
    (hname : VarChar.Takes 200 (topName db implementation)) (hfuel : (dependents db).card < fuel) :
    Ends (autoResolveMutation V db organization fuel implementation) (start resolutions resolved)
      (fun _ s' => ∃ t : Resolving, s' = { t with visited := ∅ } ∧
        Answered V db organization implementation resolutions.next (fun _ _ => True) Nowhere
          (fun _ e => Answers V db organization e.turns implementation resolutions.next)
          ((start resolutions resolved).create ⟨implementation⟩) () t)
      (Raised V db organization implementation resolutions.next (fun _ _ => True) Nowhere
        ((start resolutions resolved).create ⟨implementation⟩)) := by
  refine ends_bind (ends_attempt (fun _ _ => ?_) fun err herr => ?_)
  · refine ends_bind (ends_createResolution (fun _ => ends_bind ?_) fun hlong => absurd hname hlong)
    refine (ends_autoResolve V organization implementation hfuel (Nat.lt_succ_self _) rfl).mono ?_
      fun _ _ h => h
    intro _ s' h
    exact ends_pure h
  · rw [hi] at herr
    cases herr

/-- However much fuel it had, a run that ended ended as with enough. -/
theorem ends_of_run {Q : Nat → Resolving → Prop} {E : Error → Resolving → Prop}
    (h : autoResolveMutation V db organization fuel implementation s = some (result, s'))
    (hends : ∀ n, (dependents db).card < n →
      Ends (autoResolveMutation V db organization n implementation) s Q E) :
    (∃ a, result = .ok a ∧ Q a s') ∨ ∃ err, result = .error err ∧ E err s' := by
  have hmore : autoResolveMutation V db organization (fuel + ((dependents db).card + 1))
      implementation s = some (result, s') := by
    refine Extends.bind (.refl _) (fun _ => .bind (.refl _) fun r => ?_) _ _ h
    exact (autoResolve_extends V db organization (Nat.le_add_right _ _) implementation r).bind
      fun _ => .refl _
  rcases hends (fuel + ((dependents db).card + 1)) (by omega) with ⟨a, t, hrun, hq⟩ |
    ⟨err, t, hrun, he⟩
  · rw [hmore] at hrun
    cases hrun
    exact .inl ⟨a, rfl, hq⟩
  · rw [hmore] at hrun
    cases hrun
    exact .inr ⟨err, rfl, he⟩

/-- **What a failed resolution leaves behind.** Where the mutation raises, the tables are as before
exactly where there is no such implementation, or where the name of its action is too long for that
of a resolution: otherwise a resolution is left at least. -/
theorem failed_resolution (V : Server) (db : Database) (organization : Organization) (fuel : Nat)
    (implementation : ImplementationId) (resolutions : Table Resolution)
    (resolved : Table ResolvedDependency) {err : Error} {s' : Resolving}
    (h : autoResolveMutation V db organization fuel implementation (start resolutions resolved) =
      some (.error err, s')) :
    (s'.resolutions = resolutions ∧ s'.resolvedDependencies = resolved) ↔
      db.implementations.get implementation = none ∨
        ¬ VarChar.Takes 200 (topName db implementation) := by
  cases hi : db.implementations.get implementation with
  | none =>
    refine iff_of_true ?_ (.inl rfl)
    have hnone : autoResolveMutation V db organization fuel implementation
        (start resolutions resolved) =
          some (.error (.doesNotExist "Implementation"), start resolutions resolved) := by
      unfold autoResolveMutation
      rw [hi]
      rfl
    rw [hnone] at h
    cases h
    exact ⟨rfl, rfl⟩
  | some i =>
    by_cases hname : VarChar.Takes 200 (topName db implementation)
    · refine iff_of_false ?_ (by simp [hname])
      rintro ⟨hsame, _⟩
      rcases ends_of_run h fun n hn => ends_autoResolveMutation V organization hi hname hn with
        ⟨_, hok, _⟩ | ⟨_, _, e, ha, _⟩
      · cases hok
      · have hnext := ha.adds.next_le
        rw [hsame] at hnext
        exact Nat.not_succ_le_self _ hnext
    · refine iff_of_true ?_ (.inr hname)
      have hlong : autoResolveMutation V db organization fuel implementation
          (start resolutions resolved) = some (.error .dataError, start resolutions resolved) := by
        unfold autoResolveMutation createResolution
        rw [hi, if_neg hname]
        rfl
      rw [hlong] at h
      cases h
      exact ⟨rfl, rfl⟩

/-! ## A laboratory -/

def lab : Organization := ⟨1, "lab"⟩

/-- The actions of the laboratory, `run` and `snap`. -/
def labTables : String → List (Row SqlValue) := fun table =>
  if table = "facade_action" then
    [(1, "run"), (2, "snap")].map fun action column =>
      if column = "id" then some (.int action.1)
      else if column = "organization_id" then some (.int 1)
      else if column = "key" then some (.text action.2) else none
  else []

def labServer : Server where
  pathMatch _ _ := none
  tables := labTables
  unionOrder rows := rows
  unionOrder_perm _ := .refl _
  rank _ k := k
  demand d := d.demandKey.map fun key => { key := some key }
  stateDemand _ := none
  actionText _ := ""
  stateText _ := ""
  demandText _ := ""
  stateDemandText _ := ""

def labAgent : Agent where
  name := "scope"
  app := "mikro"
  release := "1"
  hash := "a"
  user := ⟨1, "u"⟩
  client := ⟨1, "c"⟩
  organization := lab

/-- A dependency on something with an action. -/
def needs (implementation : ImplementationId) (key demanded : String) (prefered : Option Nat) :
    Dependency where
  implementation := implementation
  key := key
  actionDemands := [{ key := demanded, demandKey := some demanded }]
  preferedInstances := prefered

/-- A dependency of the first implementation on something that snaps. -/
def camera (key : String) (prefered : Option Nat) : Dependency := needs 1 key "snap" prefered

/-- An agent with two implementations, of which the second snaps. -/
def labWith (dependencies : List Dependency) : Database where
  agents := Table.empty.insert labAgent
  actions := (Table.empty.insert { key := "run", hash := "r", organization := lab }).insert
    { key := "snap", hash := "s", organization := lab }
  implementations := (Table.empty.insert { interface := "run", action := 1, agent := 1 }).insert
    { interface := "snap", action := 2, agent := 1 }
  dependencies := Table.empty.insertAll dependencies

/-- The one needs what snaps, and that needs the one. -/
def labCycle : Database := labWith [camera "left" (some 1), needs 2 "back" "run" (some 1)]

theorem resolves_once_lab : ∃ result s', (∀ fuel, (dependents labCycle).card < fuel →
      autoResolve labServer labCycle lab fuel 1 1 (start (Table.empty.insert ⟨1⟩) .empty) =
        some (result, s')) ∧
    s'.calls.Nodup ∧ (∀ i ∈ s'.calls, hasDependencies labCycle i = true) ∧
    s'.calls.length ≤ (dependents labCycle).card ∧
    CreatedOnce ResolvedDependency.implementation .empty s'.resolvedDependencies ∧
    CreatedOnce Resolution.implementation (Table.empty.insert ⟨1⟩) s'.resolutions :=
  resolves_once labServer labCycle lab 1 .empty (by rfl)

theorem failed_resolution_absent :
    ((start .empty .empty).resolutions = .empty ∧
      (start .empty .empty).resolvedDependencies = .empty) ↔
        (labWith []).implementations.get 9 = none ∨
          ¬ VarChar.Takes 200 (topName (labWith []) 9) :=
  failed_resolution labServer (labWith []) lab 1 9 .empty .empty
    (show autoResolveMutation labServer (labWith []) lab 1 9 (start .empty .empty) =
      some (.error (.doesNotExist "Implementation"), start .empty .empty) from rfl)

/-- The count of a dependency is not set: the resolution and a row of it stay. -/
theorem unset_count_left : ∃ err s',
    autoResolveMutation labServer (labWith [camera "left" none]) lab 2 1 (start .empty .empty) =
      some (.error err, s') ∧
    ¬ (s'.resolutions = .empty ∧ s'.resolvedDependencies = .empty) := by
  refine ⟨.typeError, _, rfl, fun h => ?_⟩
  have hnext := congrArg Table.next h.2
  exact absurd hnext (by decide)

end
end AutoResolve
end Rekuest
