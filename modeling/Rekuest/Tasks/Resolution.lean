import Rekuest.Tasks.Assign

/-!
# Rekuest.Tasks.Resolution

Whose agents and implementations an assign resolves to, and binds.

* `Names`: the agents and implementations that a JSON value names. `Sealed o`: all of them belong
  to the organization `o`.
* `Resolves`: what an assign may resolve to, branch by branch. `wp_resolves`: it resolves to nothing
  else.
* `Mapped`: the agents that the caller chose belong to the organization.
* `yields_buildDependencyDict`: then the dependencies that are bound are sealed in it.
-/

namespace Rekuest
namespace Tenancy

open Interleave Interleave.Prog
open Backend (AssignInput Resolved truthy)

/-! ## Organizations -/

/-- The agent is there, and of this organization. -/
def AgentIn (db : Database) (o : Organization) (a : AgentId) : Prop :=
  ∃ row, db.agents.get a = some row ∧ row.organization = o

/-- The implementation is there, and so is its agent, of this organization. -/
def ImplementationIn (db : Database) (o : Organization) (id : ImplementationId) : Prop :=
  ∃ impl, db.implementations.get id = some impl ∧ AgentIn db o impl.agent

/-- The action is there, and of this organization. -/
def ActionIn (db : Database) (o : Organization) (id : ActionId) : Prop :=
  ∃ action, db.actions.get id = some action ∧ action.organization = o

/-- The task is there, on an agent of this organization. -/
def ParentIn (db : Database) (o : Organization) (t : TaskId) : Prop :=
  ∃ task, db.tasks.get t = some task ∧ AgentIn db o task.agent

/-- What stored dependencies name. -/
inductive Ref where
  | agent (id : AgentId)
  | implementation (id : ImplementationId)

def Ref.In (db : Database) (o : Organization) : Ref → Prop
  | .agent id => AgentIn db o id
  | .implementation id => ImplementationIn db o id

/-- The value names an agent or an implementation, at any depth. -/
inductive Names : Json → Ref → Prop where
  | agent {members : Dict Json} {n : Int} (h : ("agent", .num n) ∈ members) :
    Names (.obj members) (.agent n.toNat)
  | implementation {members : Dict Json} {n : Int} (h : ("implementation", .num n) ∈ members) :
    Names (.obj members) (.implementation n.toNat)
  | member {members : Dict Json} {key : String} {value : Json} {r : Ref}
    (h : (key, value) ∈ members) (hr : Names value r) : Names (.obj members) r
  | item {items : List Json} {value : Json} {r : Ref} (h : value ∈ items) (hr : Names value r) :
    Names (.arr items) r

/-- All that the value names belongs to the organization. -/
def Sealed (db : Database) (o : Organization) (json : Json) : Prop :=
  ∀ r, Names json r → r.In db o

/-- The same of every dependency. -/
def SealedDict (db : Database) (o : Organization) (dependencies : Dict Json) : Prop :=
  ∀ m ∈ dependencies, Sealed db o m.2

variable {S : Settings} {ok : Input → Stmt → World → Prop} {w : World} {db : Database}
  {o o' : Organization} {a : AgentId} {json : Json} {input : AssignInput} {target : Resolved}

theorem AgentIn.unique (h : AgentIn db o a) (h' : AgentIn db o' a) : o = o' := by
  obtain ⟨row, hg, rfl⟩ := h
  obtain ⟨row', hg', rfl⟩ := h'
  cases hg.symm.trans hg'
  rfl

theorem sealed_null : Sealed db o .null := by
  intro r hr
  cases hr

theorem sealed_num {n : Int} : Sealed db o (.num n) := by
  intro r hr
  cases hr

theorem sealed_arr {items : List Json} (h : ∀ value ∈ items, Sealed db o value) :
    Sealed db o (.arr items) := by
  intro r hr
  cases hr with
  | item hmem hr => exact h _ hmem r hr

theorem sealed_obj {members : Dict Json} (h : SealedDict db o members)
    (ha : ∀ n, ("agent", .num n) ∈ members → AgentIn db o n.toNat)
    (hi : ∀ n, ("implementation", .num n) ∈ members → ImplementationIn db o n.toNat) :
    Sealed db o (.obj members) := by
  intro r hr
  cases hr with
  | agent hmem => exact ha _ hmem
  | implementation hmem => exact hi _ hmem
  | member hmem hr => exact h _ hmem r hr

theorem Sealed.member {members : Dict Json} (h : Sealed db o (.obj members)) {key : String}
    {value : Json} (hmem : (key, value) ∈ members) : Sealed db o value :=
  fun r hr => h r (.member hmem hr)

theorem Sealed.dict {members : Dict Json} (h : Sealed db o (.obj members)) :
    SealedDict db o members :=
  fun _ hm => h.member hm

/-! ## What an assign resolves to -/

/-- What the input may resolve to, for a caller of the organization. -/
inductive Resolves (db : Database) (o : Organization) (input : AssignInput) :
    Resolved → Prop where
  /-- A slot of the parent. -/
  | dependency {p : TaskId} {parent : Task} {value : Json} {target : Resolved}
    (named : truthy input.dependency = true) (hp : input.parent = some p)
    (hg : db.tasks.get p = some parent) (hmem : value ∈ parent.dependencies.map Prod.snd)
    (hid : Names value (.implementation target.id))
    (hdict : ∀ dependencies, target.dependencyDict = some dependencies →
      ∀ r, Names (.obj dependencies) r → Names value r) : Resolves db o input target
  | action {id : ActionId} {implId : ImplementationId} {impl : Implementation}
    (named : truthy input.dependency = false) (hid : input.action = some id)
    (haction : (db.actions.get id).isSome = true) (himpl : impl.action = id) :
    Resolves db o input ⟨implId, impl, none⟩
  | implementation {id : ImplementationId} {impl : Implementation}
    (named : truthy input.dependency = false) (hnone : input.action = none)
    (hid : input.implementation = some id) : Resolves db o input ⟨id, impl, none⟩
  | hash {id : ActionId} {implId : ImplementationId} {impl : Implementation}
    (named : truthy input.dependency = false) (hnone : input.action = none)
    (hbare : input.implementation = none) (haction : ActionIn db o id)
    (himpl : impl.action = id) : Resolves db o input ⟨implId, impl, none⟩

/-- An answer that the statement gives on this database. -/
def AnsweredOn (S : Settings) (db : Database) (c : Stmt) (a : c.Ans) : Prop :=
  ∃ i w, w.db = db ∧ (exec S i c w).1 = a

/-- The program returns only such values, as long as nobody else writes. -/
abbrev YieldsOn {α : Type} (S : Settings) (db : Database) (Y : α → Prop) (p : Handler α) : Prop :=
  p.Yields (AnsweredOn S db) Y

/-- Run alone, it returns such a value, and the world is as it was. -/
theorem wp_yieldsOn {α : Type} {Y : α → Prop} {p : Handler α}
    (hp : Prog.Issues (L := Statements) Stmt.IsRead p) (hy : YieldsOn S w.db Y p) :
    wp (exec S) ok p (fun r w' => w' = w ∧ ∀ a, r = .ok a → Y a) w :=
  hy.wp_readOnly isRead_exec (fun i _ => ⟨i, w, rfl, rfl⟩) hp

/-- The answer of a query, whatever the clock and the order of the rows. -/
theorem yields_ask {α : Type} {Y : α → Prop} {q : Query} {f : q.Ans → Handler α}
    (h : ∀ i, YieldsOn S db Y (f (q.eval S i db))) : YieldsOn S db Y ((ask q).bind f) := by
  rintro _ ⟨i, w, rfl, rfl⟩
  exact h i

theorem yields_found {α β : Type} {Y : β → Prop} {model : String} {x : Option α}
    {f : α → Handler β} (h : ∀ a, x = some a → YieldsOn S db Y (f a)) :
    YieldsOn S db Y ((orDoesNotExist model x).bind f) := by
  cases x with
  | none => trivial
  | some a => exact h a rfl

/-- A target that the input resolves to, with the implementation that is stored. -/
def Target (db : Database) (o : Organization) (input : AssignInput) (target : Resolved) : Prop :=
  db.implementations.get target.id = some target.implementation ∧ Resolves db o input target

theorem yields_resolveAction {action : ActionId} {name : String}
    (h : ∀ implId impl, impl.action = action → Resolves db o input ⟨implId, impl, none⟩) :
    YieldsOn S db (Target db o input) (Backend.resolveAction action name) := by
  refine yields_ask fun i => ?_
  cases hfound : (Query.availableImplementation action).eval S i db with
  | none => trivial
  | some found =>
    obtain ⟨hstored, hp⟩ := Table.mem_select.mp (List.mem_of_mem_head? hfound)
    simp only [Bool.and_eq_true, decide_eq_true_eq] at hp
    exact ⟨hstored, h found.1 found.2 hp.1⟩

theorem yields_stored {β : Type} {Y : β → Prop} {id : ImplementationId}
    {f : Implementation × Option Action → Handler β}
    (h : ∀ impl action, db.implementations.get id = some impl → YieldsOn S db Y (f (impl, action))) :
    YieldsOn S db Y ((ask (.implementation id)).bind fun x =>
      (orDoesNotExist "Implementation" x).bind f) := by
  refine yields_ask fun i => yields_found fun pair hpair => ?_
  obtain ⟨impl, hg, rfl⟩ := Option.map_eq_some_iff.mp hpair
  exact h impl _ hg

theorem yields_resolveImplementation {id : ImplementationId}
    (h : ∀ impl, Resolves db o input ⟨id, impl, none⟩) :
    YieldsOn S db (Target db o input) (Backend.resolveImplementation id) := by
  refine yields_stored fun impl action hg => ?_
  dsimp only
  split
  · refine yields_bind fun available => yields_bind fun available => ?_
    split
    · exact ⟨hg, h impl⟩
    · trivial
  · exact ⟨hg, h impl⟩

theorem yields_jsonMember {members : Dict Json} {key : String} :
    YieldsOn S db (fun value => (key, value) ∈ members) (Backend.jsonMember (.obj members) key) := by
  unfold Backend.jsonMember
  dsimp only
  split
  · rename_i hget
    exact Dict.mem_of_get? hget
  · trivial

theorem yields_jsonChoice :
    YieldsOn S db (fun item => ∀ r, Names item r → Names json r) (Backend.jsonChoice json) := by
  unfold Backend.jsonChoice
  split
  · refine yields_ask fun i => ?_
    split
    · rename_i item hitem
      exact fun r hr => .item (List.mem_of_getElem? hitem) hr
    · trivial
  · trivial

theorem yields_resolveDependency {dependency : String} (hd : truthy input.dependency = true) :
    YieldsOn S db (Target db o input) (Backend.resolveDependency input dependency) := by
  unfold Backend.resolveDependency
  split
  · trivial
  split
  · trivial
  rename_i p hp
  refine yields_ask fun i => yields_found fun parent hparent => ?_
  split
  · trivial
  rename_i value hvalue
  refine yields_jsonChoice.bind fun chosen hchosen => ?_
  split
  swap
  · trivial
  rename_i members
  split
  · trivial
  · rename_i actions hactions
    dsimp only
    split
    · trivial
    rename_i slot hslot
    have hslotNames : ∀ r, Names slot r → Names value r := fun r hr =>
      hchosen r (.member (Dict.mem_of_get? hactions) (.member (Dict.mem_of_get? hslot) hr))
    cases slot with
    | obj slotMembers =>
      refine yields_jsonMember.bind fun implementationId himpl =>
        yields_jsonMember.bind fun dependencyDict hdict => ?_
      split
      · refine yields_stored fun impl action hg => ⟨hg, ?_⟩
        refine .dependency hd hp hparent ?_ (hslotNames _ (.implementation himpl)) ?_
        · exact List.mem_map.mpr ⟨_, Dict.mem_of_get? hvalue, rfl⟩
        · rintro _ ⟨⟩ r hr
          exact hslotNames r (.member hdict hr)
      · trivial
    | _ => trivial
  · trivial

/-- **The branches of a resolution.** -/
theorem yields_resolve : YieldsOn S db (Target db o input) (Backend.resolve o input) := by
  unfold Backend.resolve
  split
  · rename_i hd
    exact yields_resolveDependency hd
  rename_i hd
  have hnamed : truthy input.dependency = false := by simpa using hd
  split
  · rename_i id hid
    refine yields_ask fun i => yields_found fun action haction => ?_
    exact yields_resolveAction fun implId impl himpl =>
      .action hnamed hid (Option.isSome_iff_exists.mpr ⟨action, haction⟩) himpl
  rename_i hnone
  split
  · rename_i id hid
    exact yields_resolveImplementation fun impl => .implementation hnamed hnone hid
  rename_i hbare
  split
  · refine yields_ask fun i => ?_
    split
    · trivial
    · rename_i id action hactions
      have hmem : (id, action) ∈ (Query.actionsOfHash (input.actionHash.getD "") o).eval S i db := by
        rw [hactions]
        exact List.mem_singleton_self _
      obtain ⟨hg, hp⟩ := Table.mem_select.mp hmem
      simp only [Bool.and_eq_true, decide_eq_true_eq] at hp
      exact yields_resolveAction fun implId impl himpl =>
        .hash hnamed hnone hbare ⟨action, hg, hp.2⟩ himpl
    · trivial
  · trivial

theorem wp_resolves : wp (exec S) ok (Backend.resolve o input)
    (fun r w' => w' = w ∧ ∀ target, r = .ok target → Target w.db o input target) w :=
  wp_yieldsOn Backend.resolves_isRead.resolve yields_resolve

/-! ## What is bound -/

/-- The agents that the caller chose belong to the organization, as far as they are there. -/
def Mapped (db : Database) (o : Organization) (overwrites : List Backend.ResolvedDependency) :
    Prop :=
  ∀ overwrite ∈ overwrites, overwrite.autoResolve = false → ∀ a ∈ overwrite.mappedAgents,
    ∀ row, db.agents.get a = some row → row.organization = o

/-- A slot is an object, and sealed. -/
def Slot (db : Database) (o : Organization) (json : Json) : Prop :=
  Sealed db o json ∧ ∀ n, json ≠ .num n

theorem yields_demandSlot {demand : ActionDemand} (ha : AgentIn db o a) :
    YieldsOn S db (fun slot => Slot db o slot.2) (Backend.demandSlot a demand) := by
  refine yields_ask fun i => ?_
  split
  · trivial
  · rename_i id hids
    have hmem : id ∈ (Query.implementationsOfKey _ a).eval S i db :=
      hids ▸ List.mem_singleton_self id
    obtain ⟨⟨id', impl⟩, hselected, rfl⟩ := List.mem_map.mp hmem
    obtain ⟨hg, hp⟩ := Table.mem_select.mp hselected
    simp only [Bool.and_eq_true, decide_eq_true_eq] at hp
    have hin : ImplementationIn db o id' := ⟨impl, hg, by rw [hp.1]; exact ha⟩
    refine yields_bind fun dependencies => ?_
    split
    · refine ⟨sealed_obj ?_ ?_ ?_, nofun⟩
      · simp only [SealedDict, List.mem_cons, List.not_mem_nil, or_false]
        rintro m (rfl | rfl)
        · exact sealed_num
        · exact sealed_obj (fun m hm => by cases hm) (fun n hn => by cases hn)
            fun n hn => by cases hn
      · intro n hn
        simp at hn
      · intro n hn
        simp only [List.mem_cons, Prod.mk.injEq, Json.num.injEq, true_and, reduceCtorEq, and_false,
          List.not_mem_nil, or_false] at hn
        rw [hn]
        exact hin
    · trivial
  · trivial

theorem yields_buildAgentDependencyDict {dep : Dependency} (ha : AgentIn db o a) :
    YieldsOn S db (Sealed db o) (Backend.buildAgentDependencyDict dep a) := by
  refine (yields_collect fun demand _ => yields_demandSlot ha).bind fun slots hslots => ?_
  have hactions : ∀ m ∈ Dict.update [] slots, Slot db o m.2 :=
    Dict.forall_update (fun m hm => by cases hm) hslots
  refine sealed_obj ?_ ?_ ?_
  · simp only [SealedDict, List.mem_cons, List.not_mem_nil, or_false]
    rintro m (rfl | rfl)
    · exact sealed_num
    · exact sealed_obj (fun m hm => (hactions m hm).1)
        (fun n hn => absurd rfl ((hactions _ hn).2 n)) fun n hn => absurd rfl ((hactions _ hn).2 n)
  · intro n hn
    simp only [List.mem_cons, Prod.mk.injEq, Json.num.injEq, true_and, reduceCtorEq, and_false,
      List.not_mem_nil, or_false] at hn
    rw [hn]
    exact ha
  · intro n hn
    simp at hn

theorem yields_viableAgents {dep : Dependency} {agents : List AgentId} :
    YieldsOn S db (fun viable => ∀ a ∈ viable, a ∈ agents) (Backend.viableAgents dep agents) := by
  have henough : ∀ {few : Prop} [Decidable few] {e : Error} {some : List AgentId},
      (∀ a ∈ some, a ∈ agents) → YieldsOn S db (fun viable => ∀ a ∈ viable, a ∈ agents)
        (if few then .fail e else .ret some) := by
    intro few _ e some hsome
    split
    · trivial
    · exact hsome
  unfold Backend.viableAgents
  cases dep.minViableInstances with
  | none =>
    cases dep.maxViableInstances with
    | none => exact fun a ha => ha
    | some m => exact fun a ha => List.mem_of_mem_take ha
  | some n =>
    cases dep.maxViableInstances with
    | none => exact henough fun a ha => ha
    | some m => exact henough fun a ha => List.mem_of_mem_take ha

theorem yields_candidateAgents {overwrites : List Backend.ResolvedDependency} {dep : Dependency}
    (hmapped : Mapped db o overwrites) : YieldsOn S db (fun agents => ∀ a ∈ agents, AgentIn db o a)
      (Backend.candidateAgents o overwrites dep) := by
  have happ : YieldsOn S db (fun agents => ∀ a ∈ agents, AgentIn db o a)
      (ask (.appAgents dep.appFilter o)) := by
    rintro _ ⟨i, w, rfl, rfl⟩ a ha
    obtain ⟨⟨a', row⟩, hselected, rfl⟩ := List.mem_map.mp ha
    obtain ⟨hg, hp⟩ := Table.mem_selectBy.mp hselected
    simp only [Bool.and_eq_true, decide_eq_true_eq] at hp
    exact ⟨row, hg, hp.1.2⟩
  unfold Backend.candidateAgents
  split
  · rename_i overwrite hfind
    split
    · split
      · exact happ
      · trivial
    · rename_i hchosen
      rintro _ ⟨i, w, rfl, rfl⟩ a ha
      obtain ⟨⟨a', row⟩, hselected, rfl⟩ := List.mem_map.mp ha
      obtain ⟨hg, hp⟩ := Table.mem_selectBy.mp hselected
      simp only [Bool.and_eq_true, List.contains_iff_mem] at hp
      exact ⟨row, hg, hmapped overwrite (List.mem_of_find?_eq_some hfind) (by simpa using hchosen)
        a' hp.1 row hg⟩
  · split
    · exact happ
    · trivial

/-- **The dependencies that are bound** name nothing of another organization. -/
theorem yields_buildDependencyDict {id : ImplementationId}
    {overwrites : List Backend.ResolvedDependency} (hmapped : Mapped db o overwrites) :
    YieldsOn S db (SealedDict db o) (Backend.buildDependencyDict id o overwrites) := by
  refine yields_bind fun dependencies => ?_
  refine Yields.bind (Y := fun bound => ∀ m ∈ bound, Sealed db o m.2)
    (yields_collect fun dep _ => ?_) fun bound hbound => ?_
  · refine (yields_candidateAgents hmapped).bind fun candidates hcandidates =>
      yields_viableAgents.bind fun agents hagents => ?_
    refine (yields_collect fun a ha =>
      yields_buildAgentDependencyDict (hcandidates a (hagents a ha))).bind fun bound hbound => ?_
    exact sealed_arr hbound
  · exact Dict.forall_update (fun m hm => by cases hm) hbound

/-- The dependencies of a lower implementation name what its wrapper's do, and what its projection
has as constants. -/
theorem sealed_mapDependencies {resolved : Dict Json} (hr : SealedDict db o resolved)
    {map : Dict ProjectionSource} (hmap : ∀ m ∈ map, ∀ value, m.2.value = some value →
      Sealed db o value) {acc lower : Dict Json} (hacc : SealedDict db o acc)
    (h : HigherOrder.mapDependencies resolved map acc = .ok lower) : SealedDict db o lower := by
  induction map generalizing acc with
  | nil =>
    cases h
    exact hacc
  | cons m map ih =>
    obtain ⟨lowerKey, spec⟩ := m
    have hrest := fun m hm => hmap m (List.mem_cons_of_mem _ hm)
    simp only [HigherOrder.mapDependencies] at h
    split at h
    · refine ih hrest (Dict.forall_set hacc ?_) h
      cases hv : spec.value with
      | none => exact sealed_null
      | some value => exact hmap _ List.mem_cons_self value hv
    split at h
    · split at h
      · cases h
      split at h
      · cases h
      · rename_i value hvalue
        exact ih hrest (Dict.forall_set hacc (hr _ (Dict.mem_of_get? hvalue))) h
    · cases h

theorem sealed_buildLowerDependencies {config : HigherOrderConfig} {resolved lower : Dict Json}
    (hr : SealedDict db o resolved) (hmap : ∀ m ∈ config.dependencyMap, ∀ value,
      m.2.value = some value → Sealed db o value)
    (h : HigherOrder.buildLowerDependencies config resolved = .ok lower) :
    SealedDict db o lower := by
  unfold HigherOrder.buildLowerDependencies at h
  split at h
  · cases h
    exact hr
  · exact sealed_mapDependencies hr hmap (fun m hm => by cases hm) h

end Tenancy
end Rekuest
