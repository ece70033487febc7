import Rekuest.Registry.Declarations
import Rekuest.Registry.Described
import Rekuest.Wrapping

/-!
# Rekuest.Registry.Wiring

What registrations do to the links between implementations and to the keys of their dependencies.

* `Rewired`: one registration. A deletion takes away the links to what it deletes, and the
  dependencies of it; a link that the registered object carries is written back.
* `SameWiring`: what the rest of a call leaves alone. `Unwired`: what the reaping leaves.
* `implementAgent_wiring`: a call of an agent, in these parts.
-/

namespace Rekuest
namespace Registration

open Fallible
open Interleave (Table)

variable {H : Hashing} {db db' db₁ db₂ : Database} {agentId : AgentId} {agent : Agent}
  {input : ImplementationInput} {found : Option (Instance Action)}
  {current : Option ImplementationRef} {k : ActionId} {r : Registered}
  {dropped : Option ActionId} {i j l : ImplementationId} {s : String}

theorem mem_dependencyKeys : s ∈ dependencyKeys db i ↔
    ∃ d row, db.dependencies.get d = some row ∧ row.implementation = i ∧ row.key = s := by
  simp only [dependencyKeys, List.mem_map, Prod.exists, Table.mem_select, decide_eq_true_eq]
  constructor
  · rintro ⟨d, row, ⟨hget, hi⟩, hkey⟩
    exact ⟨d, row, hget, hi, hkey⟩
  · rintro ⟨d, row, hget, hi, hkey⟩
    exact ⟨d, row, ⟨hget, hi⟩, hkey⟩

theorem dependencyKeys_congr (h : db'.dependencies = db.dependencies) :
    dependencyKeys db' i = dependencyKeys db i := by
  rw [dependencyKeys, h]
  rfl

/-! ## A deletion -/

/-- What a deletion leaves of the links. -/
theorem links_of_remove {d : Doomed} {row : Implementation}
    (h : (db.remove d).implementations.get j = some row) :
    d.implementation j = false ∧ ∃ before, db.implementations.get j = some before ∧
      Alike before row ∧ ∀ l, row.higherOrderFor = some l ↔
        before.higherOrderFor = some l ∧ d.implementation l = false := by
  obtain ⟨before, hbefore, hlinks⟩ := Option.map_eq_some_iff.mp h
  obtain ⟨hget, hnot⟩ := Table.get_erase_eq_some_iff.mp hbefore
  refine ⟨hnot, before, hget, ?_, fun l => ?_⟩
  · rw [← hlinks]
    rfl
  · rw [← hlinks]
    simp [Option.filter_eq_some_iff]

theorem mem_dependencyKeys_remove {d : Doomed} :
    s ∈ dependencyKeys (db.remove d) i ↔ s ∈ dependencyKeys db i ∧ d.implementation i = false := by
  simp only [mem_dependencyKeys, Database.remove, Table.get_erase_eq_some_iff]
  constructor
  · rintro ⟨e, row, ⟨hget, hnot⟩, hi, hkey⟩
    rw [hi] at hnot
    exact ⟨⟨e, row, hget, hi, hkey⟩, hnot⟩
  · rintro ⟨⟨e, row, hget, hi, hkey⟩, hnot⟩
    rw [← hi] at hnot
    exact ⟨e, row, ⟨hget, hnot⟩, hi, hkey⟩

/-! ## The upserts -/

theorem mem_dependencyKeys_sync {dependencies : List AgentDependency}
    (h : dependencies.foldlM (syncDependency i) db.dependencies = .ok db'.dependencies) :
    s ∈ dependencyKeys db' j ↔
      s ∈ dependencyKeys db j ∨ (j = i ∧ ∃ d ∈ dependencies, d.key = s) := by
  have hsynced := synced_of_foldlM h
  simp only [mem_dependencyKeys]
  constructor
  · rintro ⟨e, row, hget, hj, hkey⟩
    cases hold : db.dependencies.get e with
    | none =>
      obtain ⟨d, hd, _, hrow⟩ := hsynced.new e row hget hold
      rw [hrow, written_implementation] at hj
      rw [hrow, written_key] at hkey
      exact .inr ⟨hj.symm, d, hd, hkey⟩
    | some before =>
      have hthere := hsynced.old e before hold
      rw [hget] at hthere
      have hrow := Option.some.inj hthere
      refine .inl ⟨e, before, hold, ?_, ?_⟩
      · rw [← hj, hrow]
        split <;> simp
      · rw [← hkey, hrow]
        split <;> simp
  · rintro (⟨e, before, hold, hj, hkey⟩ | ⟨hj, d, hd, hkey⟩)
    · refine ⟨e, _, hsynced.old e before hold, ?_, ?_⟩
      · split <;> simp [hj]
      · split <;> simp [hkey]
    · obtain ⟨e, row, hget, himplementation, hrow⟩ := hsynced.present d hd
      exact ⟨e, row, hget, himplementation.trans hj.symm, hrow.trans hkey⟩

/-! ## One registration -/

/-- The links and the keys after a registration. -/
structure Rewired (db : Database) (input : ImplementationInput)
    (current : Option ImplementationRef) (r : Registered) (k : ActionId) : Prop where
  links : ∀ j row, j ≠ r.implementation.1 → r.db.implementations.get j = some row →
    ∃ before, db.implementations.get j = some before ∧ Alike before row ∧
      ∀ l, row.higherOrderFor = some l → before.higherOrderFor = some l ∧
        (Abandons db current k → l ≠ r.implementation.1)
  own : ∀ l, r.implementation.2.higherOrderFor = some l → ∃ ref, current = some ref ∧
    ref.2.higherOrderFor = some l ∧
    r.implementation.2.higherOrderConfig = ref.2.higherOrderConfig
  keys : ∀ j, j ≠ r.implementation.1 → ∀ s, s ∈ dependencyKeys r.db j ↔ s ∈ dependencyKeys db j
  ownKeys : ∀ s, s ∈ dependencyKeys r.db r.implementation.1 ↔
    (¬Abandons db current k ∧ s ∈ dependencyKeys db r.implementation.1) ∨
      ∃ d ∈ input.dependencies, d.key = s

/-- The deletion of an abandoned action takes the implementation of the interface, and no other. -/
theorem doomed_iff (hlook : Looked db agentId agent input found current) {ref : ImplementationRef}
    (href : current = some ref) (hcount : implementationCount db ref.2.action = 1) :
    (db.doomed (fun a => a = ref.2.action) fun _ => false).implementation j = true ↔ j = ref.1 := by
  obtain ⟨_, _, own, hown, halike⟩ := hlook.current ref href
  have haction : own.action = ref.2.action := by rw [halike]
  simp only [Database.doomed, Bool.false_or, Option.any_eq_true, decide_eq_true_eq]
  constructor
  · rintro ⟨row, hrow, hsame⟩
    exact implementationCount_eq_one hcount hown haction hrow hsame
  · rintro rfl
    exact ⟨own, hown, haction⟩

theorem rewired_of_register (h : register H db agentId agent input found current = .ok r)
    (hlook : Looked db agentId agent input found current) :
    ∃ k, r.action.pk = some k ∧ Rewired db input current r k := by
  have hcurrent : ∀ ref, current = some ref → ref.1 < db.implementations.next := by
    intro ref href
    obtain ⟨_, _, row, hrow, _⟩ := hlook.current ref href
    exact Table.lt_next hrow
  obtain ⟨k, db₁, db₂, hpk, hregistered, hdropped, hinstalled⟩ := register_ok h hlook.fits hcurrent
  have hframe : ActionFrame db db₁ := actionFrame (registerAction_frame hregistered hlook.fits)
  have hkeys₁ : ∀ j, dependencyKeys db₁ j = dependencyKeys db j :=
    fun j => dependencyKeys_congr hframe.dependencies
  have habandons : Abandons db₁ current k ↔ Abandons db current k :=
    Abandons.congr hframe.implementations
  have hdoomed : ∀ a : ActionId, (db₁.doomed (fun j => j = a) fun _ => false).implementation =
      (db.doomed (fun j => j = a) fun _ => false).implementation := by
    intro a
    simp only [Database.doomed, hframe.implementations]
  -- the links and the keys once the abandoned action is gone
  have hlinks : ∀ j row, db₂.implementations.get j = some row → ∃ before,
      db.implementations.get j = some before ∧ Alike before row ∧
        ∀ l, row.higherOrderFor = some l → before.higherOrderFor = some l ∧
          (Abandons db current k → l ≠ r.implementation.1) := by
    intro j row hrow
    by_cases hab : Abandons db current k
    · obtain ⟨ref, href, _, hcount⟩ := id hab
      have hid : r.implementation.1 = ref.1 := by rw [hinstalled.key, href]; rfl
      rw [(hdropped.deleted ref href (habandons.mpr hab)).2] at hrow
      obtain ⟨_, before, hbefore, halike, hlink⟩ := links_of_remove hrow
      rw [hframe.implementations] at hbefore
      refine ⟨before, hbefore, halike, fun l hl => ?_⟩
      obtain ⟨hbl, hnot⟩ := (hlink l).mp hl
      refine ⟨hbl, fun _ hli => ?_⟩
      rw [hdoomed, hli, hid, (doomed_iff hlook href hcount).mpr rfl] at hnot
      cases hnot
    · rw [(hdropped.kept fun hab' => hab (habandons.mp hab')).1, hframe.implementations] at hrow
      exact ⟨row, hrow, rfl, fun l hl => ⟨hl, fun hab' => absurd hab' hab⟩⟩
  have hkeys : ∀ j s, s ∈ dependencyKeys db₂ j ↔
      s ∈ dependencyKeys db j ∧ (Abandons db current k → j ≠ r.implementation.1) := by
    intro j s
    by_cases hab : Abandons db current k
    · obtain ⟨ref, href, _, hcount⟩ := id hab
      have hid : r.implementation.1 = ref.1 := by rw [hinstalled.key, href]; rfl
      rw [(hdropped.deleted ref href (habandons.mpr hab)).2, mem_dependencyKeys_remove, hkeys₁,
        hdoomed, ← Bool.not_eq_true, doomed_iff hlook href hcount, hid]
      exact and_congr_right fun _ => ⟨fun hne _ => hne, fun hne => hne hab⟩
    · rw [(hdropped.kept fun hab' => hab (habandons.mp hab')).1, hkeys₁]
      exact ⟨fun hs => ⟨hs, fun hab' => absurd hab' hab⟩, fun hs => hs.1⟩
  refine ⟨k, hpk, {
    links := fun j row hj hrow => ?_
    own := fun l hl => ?_
    keys := fun j hj s => ?_
    ownKeys := fun s => ?_ }⟩
  · rw [hinstalled.others j hj] at hrow
    exact hlinks j row hrow
  · rw [hinstalled.row] at hl ⊢
    cases hc : current with
    | none =>
      rw [hc] at hl
      cases hl
    | some ref =>
      rw [hc] at hl
      exact ⟨ref, rfl, hl, rfl⟩
  · rw [mem_dependencyKeys_sync hinstalled.dependencies, hkeys]
    simp [hj]
  · rw [mem_dependencyKeys_sync hinstalled.dependencies, hkeys]
    simp only [ne_eq, not_true_eq_false, imp_false, true_and]
    exact or_congr_left and_comm

/-! ## The rest of a call -/

/-- The actions, the implementations and the dependencies are those of before. -/
structure SameWiring (db db' : Database) : Prop where
  actions : db'.actions = db.actions
  implementations : db'.implementations = db.implementations
  dependencies : db'.dependencies = db.dependencies

theorem SameWiring.refl : SameWiring db db := ⟨rfl, rfl, rfl⟩

theorem SameWiring.trans {db'' : Database} (h : SameWiring db db') (h' : SameWiring db' db'') :
    SameWiring db db'' where
  actions := h'.actions.trans h.actions
  implementations := h'.implementations.trans h.implementations
  dependencies := h'.dependencies.trans h.dependencies

theorem SameWiring.foldlM {α : Type} {f : Database → α → Except Error Database} {xs : List α}
    (hf : ∀ db x db', f db x = .ok db' → SameWiring db db') (h : xs.foldlM f db = .ok db') :
    SameWiring db db' := by
  induction xs generalizing db with
  | nil =>
    rw [foldlM_nil_iff] at h
    rw [h]
    exact .refl
  | cons x xs ih =>
    obtain ⟨c, hc, hrest⟩ := foldlM_cons_iff.mp h
    exact (hf db x c hc).trans (ih hrest)

variable {requester : Requester}

theorem upsertAgent_wiring {name : String} {hash : Option String} :
    SameWiring db (upsertAgent db requester name hash).1 := by
  unfold upsertAgent
  dsimp only
  split <;> exact ⟨rfl, rfl, rfl⟩

theorem registerLock_wiring {lock : LockInput} (h : registerLock agentId db lock = .ok db') :
    SameWiring db db' := by
  obtain ⟨stored, _, h⟩ := bind_ok_iff.mp h
  rw [← pure_ok_iff.mp h]
  exact ⟨rfl, rfl, rfl⟩

theorem registerStates_wiring {inputs : List StateInput} {q : Database × List StateId}
    (h : registerStates H agentId agent db inputs = .ok q) : SameWiring db q.1 := by
  induction inputs generalizing db q with
  | nil =>
    cases h
    exact .refl
  | cons state inputs ih =>
    obtain ⟨stored, hstored, h⟩ := bind_ok_iff.mp h
    obtain ⟨rest, hrest, h⟩ := bind_ok_iff.mp h
    obtain ⟨definition, _, hstored⟩ := bind_ok_iff.mp hstored
    obtain ⟨row, _, hstored⟩ := bind_ok_iff.mp hstored
    have hsame : SameWiring db stored.1 := by
      rw [← pure_ok_iff.mp hstored]
      exact ⟨rfl, rfl, rfl⟩
    have hih := ih hrest
    rw [← pure_ok_iff.mp h]
    exact hsame.trans hih

theorem registerBlokDependency_wiring {blok materializedBlok : Nat} {dependency : AgentDependency}
    (h : registerBlokDependency agentId blok materializedBlok db dependency = .ok db') :
    SameWiring db db' := by
  obtain ⟨dep, _, h⟩ := bind_ok_iff.mp h
  obtain ⟨mapping, _, h⟩ := bind_ok_iff.mp h
  split at h
  · rw [← pure_ok_iff.mp h]
    exact ⟨rfl, rfl, rfl⟩
  · cases h

theorem registerBlok_wiring {blok : BlokInput} (h : registerBlok requester agentId db blok = .ok db') :
    SameWiring db db' := by
  obtain ⟨catalog, _, h⟩ := bind_ok_iff.mp h
  obtain ⟨demoState, _, h⟩ := bind_ok_iff.mp h
  obtain ⟨row, _, h⟩ := bind_ok_iff.mp h
  obtain ⟨materialized, _, h⟩ := bind_ok_iff.mp h
  have hrest := SameWiring.foldlM (fun _ _ _ h => registerBlokDependency_wiring h) h
  exact ⟨hrest.actions, hrest.implementations, hrest.dependencies⟩

/-- What the reaping leaves of the links and of the keys of the implementations it leaves. -/
structure Unwired (db db' : Database) : Prop where
  actions : db'.actions = db.actions
  links : ∀ j row, db'.implementations.get j = some row →
    ∃ before, db.implementations.get j = some before ∧ Alike before row ∧
      ∀ l, row.higherOrderFor = some l → before.higherOrderFor = some l ∧
        ∀ lower, db.implementations.get l = some lower →
          ∃ row, db'.implementations.get l = some row ∧ Alike lower row
  keys : ∀ j, (db'.implementations.get j).isSome = true →
    ∀ s, s ∈ dependencyKeys db' j ↔ s ∈ dependencyKeys db j

theorem unwired_of_reap {kept : List ImplementationId}
    (h : reapImplementations db agentId kept = .ok db') : Unwired db db' := by
  obtain ⟨hdb, _⟩ := Database.delete_ok h
  refine {
    actions := (reapImplementations_ok h).actions
    links := fun j row hrow => ?_
    keys := fun j hj s => ?_ }
  · rw [hdb] at hrow
    obtain ⟨_, before, hbefore, halike, hlink⟩ := links_of_remove hrow
    refine ⟨before, hbefore, halike, fun l hl => ?_⟩
    obtain ⟨hbl, hnot⟩ := (hlink l).mp hl
    refine ⟨hbl, fun lower hlower => ?_⟩
    rw [hdb]
    exact ⟨_, Option.map_eq_some_iff.mpr ⟨lower, Table.get_erase_eq_some_iff.mpr ⟨hlower, hnot⟩,
      rfl⟩, rfl⟩
  · obtain ⟨row, hrow⟩ := Option.isSome_iff_exists.mp hj
    rw [hdb] at hrow ⊢
    obtain ⟨hnot, _⟩ := links_of_remove hrow
    rw [mem_dependencyKeys_remove]
    exact and_iff_left hnot

/-- A call of an agent as its batch, what it leaves alone, and its reaping. -/
theorem implementAgent_wiring {declared : AgentInput} {uuid : String} {q : Database × AgentId}
    (h : implementAgent H db requester declared uuid = .ok q) :
    ∃ (begun : Database × AgentId × Agent) (batch : Batch) (db₁ db₂ : Database),
      beginAgent db requester declared uuid = .ok begun ∧
      SameWiring db begun.1 ∧
      registerBatch H begun.1 begun.2.1 begun.2.2 declared.implementations = .ok batch ∧
      SameWiring batch.db db₁ ∧ Unwired db₁ db₂ ∧ SameWiring db₂ q.1 := by
  obtain ⟨begun, hbegun, h⟩ := bind_ok_iff.mp h
  obtain ⟨batch, hbatch, h⟩ := bind_ok_iff.mp h
  obtain ⟨states, hstates, h⟩ := bind_ok_iff.mp h
  obtain ⟨reaped, hreaped, h⟩ := bind_ok_iff.mp h
  obtain ⟨bloks, hbloks, h⟩ := bind_ok_iff.mp h
  have hbegins : SameWiring db begun.1 := by
    obtain ⟨row, _, hbegun⟩ := bind_ok_iff.mp hbegun
    obtain ⟨locked, hlocked, hbegun⟩ := bind_ok_iff.mp hbegun
    rw [← pure_ok_iff.mp hbegun]
    exact upsertAgent_wiring.trans (SameWiring.foldlM (fun _ _ _ h => registerLock_wiring h) hlocked)
  have hreapStates : SameWiring states.1 (reapStates states.1 begun.2.1 states.2) := ⟨rfl, rfl, rfl⟩
  split at h
  · rw [← pure_ok_iff.mp h]
    exact ⟨begun, batch, _, reaped, hbegun, hbegins, hbatch,
      (registerStates_wiring hstates).trans hreapStates, unwired_of_reap hreaped,
      SameWiring.foldlM (fun _ _ _ h => registerBlok_wiring h) hbloks⟩
  · cases h

end Registration
end Rekuest
