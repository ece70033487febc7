import Rekuest.Registry.Pointing

/-!
# Rekuest.Registry.Declarations

Whether what is stored of an implementation is what was declared of it.

* `written`: what the upserts of the declared dependencies make of a row.
* `Synced`: the dependencies after the upserts.
* `Reconciled`: the declaration, and nothing else, is stored. `Reconcilable`: the condition for
  that, over the state before and the declaration.
* `reconciled_iff`: a registration reconciles exactly under that condition. Rows that are not
  declared any more stay, and three fields of a dependency are never written.
-/

namespace Rekuest
namespace Registration

open Fallible
open Interleave (Table)

/-! ## The upserts -/

/-- The fields of a dependency that the upsert leaves out. -/
structure Unwritten where
  optional : Bool := false
  description : Option String := none
  assignPolicy : AssignPolicy := .automatic
  deriving DecidableEq, Repr

def unwritten (row : Dependency) : Unwritten := ⟨row.optional, row.description, row.assignPolicy⟩

/-- The row that carries every declared field. -/
def declaredRow (i : ImplementationId) (dependency : AgentDependency) : Dependency :=
  { AgentDependency.write dependency { implementation := i, key := dependency.key } with
    optional := dependency.optional
    description := dependency.description
    assignPolicy := dependency.assignPolicy }

section

variable {dependency other : AgentDependency} {i : ImplementationId} {row : Dependency}

theorem declaredRow_injective (h : declaredRow i dependency = declaredRow i other) :
    dependency = other := by
  cases dependency
  cases other
  simp only [declaredRow, AgentDependency.write, Dependency.mk.injEq] at h
  simp only [AgentDependency.mk.injEq]
  tauto

theorem write_eq_declaredRow (himplementation : row.implementation = i)
    (hkey : row.key = dependency.key) (h : unwritten row = unwritten (declaredRow i dependency)) :
    AgentDependency.write dependency row = declaredRow i dependency := by
  simp only [unwritten, declaredRow, Unwritten.mk.injEq] at h
  simp only [AgentDependency.write, declaredRow, himplementation, hkey, h.1, h.2.1, h.2.2]

end

/-- What the upserts make of a row of the implementation. -/
def written (dependencies : List AgentDependency) (row : Dependency) : Dependency :=
  dependencies.foldl (fun row dependency =>
    if row.key = dependency.key then AgentDependency.write dependency row else row) row

variable {dependencies : List AgentDependency} {row : Dependency} {i : ImplementationId}
  {t t' : Table Dependency} {k : Nat}

theorem written_cons {dependency : AgentDependency} :
    written (dependency :: dependencies) row = written dependencies
      (if row.key = dependency.key then AgentDependency.write dependency row else row) := rfl

section

variable (dependencies row)

@[simp] theorem written_implementation :
    (written dependencies row).implementation = row.implementation := by
  induction dependencies generalizing row with
  | nil => rfl
  | cons dependency dependencies ih =>
    rw [written_cons, ih]
    split <;> rfl

@[simp] theorem written_key : (written dependencies row).key = row.key := by
  induction dependencies generalizing row with
  | nil => rfl
  | cons dependency dependencies ih =>
    rw [written_cons, ih]
    split <;> rfl

@[simp] theorem unwritten_written : unwritten (written dependencies row) = unwritten row := by
  induction dependencies generalizing row with
  | nil => rfl
  | cons dependency dependencies ih =>
    rw [written_cons, ih]
    split <;> rfl

end

/-- Where one key is declared one way only, the row carries that declaration. -/
theorem written_eq {dependency : AgentDependency} (hmem : dependency ∈ dependencies)
    (hkey : row.key = dependency.key)
    (honly : ∀ other ∈ dependencies, other.key = dependency.key → other = dependency) :
    written dependencies row = AgentDependency.write dependency row := by
  have hstays : ∀ rest : List AgentDependency, (∀ other ∈ rest, other.key = dependency.key →
      other = dependency) → written rest (AgentDependency.write dependency row) =
        AgentDependency.write dependency row := by
    intro rest hrest
    induction rest with
    | nil => rfl
    | cons other rest ih =>
      rw [written_cons]
      have hih := ih fun other hother => hrest other (List.mem_cons_of_mem _ hother)
      split
      · rename_i hsame
        have hother := hrest other List.mem_cons_self (hsame.symm.trans hkey)
        rw [hother]
        exact hih
      · exact hih
  induction dependencies with
  | nil => cases hmem
  | cons other rest ih =>
    rw [written_cons]
    have hrest : ∀ d ∈ rest, d.key = dependency.key → d = dependency :=
      fun d hd => honly d (List.mem_cons_of_mem _ hd)
    by_cases hother : row.key = other.key
    · rw [if_pos hother, honly other List.mem_cons_self (hother.symm.trans hkey)]
      exact hstays rest hrest
    · rw [if_neg hother]
      rcases List.mem_cons.mp hmem with hsame | hmem
      · rw [hsame] at hkey
        exact absurd hkey hother
      · exact ih hmem hrest

/-- One row at most of the implementation has the key. -/
def OneRow (t : Table Dependency) (i : ImplementationId) (key : String) : Prop :=
  ∀ j k a b, t.get j = some a → t.get k = some b → a.implementation = i → b.implementation = i →
    a.key = key → b.key = key → j = k

/-- The dependencies `t'` after the upserts of the declared ones into `t`. -/
structure Synced (i : ImplementationId) (dependencies : List AgentDependency)
    (t t' : Table Dependency) : Prop where
  old : ∀ k row, t.get k = some row →
    t'.get k = some (if row.implementation = i then written dependencies row else row)
  new : ∀ k row, t'.get k = some row → t.get k = none → ∃ dependency ∈ dependencies,
    (∀ j a, t.get j = some a → a.implementation = i → a.key ≠ dependency.key) ∧
    row = written dependencies { implementation := i, key := dependency.key }
  later : ∀ k, k < t.next → t.get k = none → t'.get k = none
  grows : t.next ≤ t'.next
  present : ∀ dependency ∈ dependencies, ∃ k row, t'.get k = some row ∧ row.implementation = i ∧
    row.key = dependency.key
  one : ∀ key, (∃ dependency ∈ dependencies, dependency.key = key) ∨ OneRow t i key →
    OneRow t' i key

theorem syncDependency_ok {dependency : AgentDependency}
    (h : syncDependency i t dependency = .ok t') :
    ∃ k, t.updateOrCreate (Error.multipleObjectsReturned "Dependency")
      (fun row => row.implementation = i && row.key = dependency.key)
      (AgentDependency.write dependency { implementation := i, key := dependency.key })
      (AgentDependency.write dependency) = .ok (t', k) := by
  obtain ⟨stored, hstored, h⟩ := bind_ok_iff.mp h
  rw [← pure_ok_iff.mp h]
  exact ⟨stored.2, hstored⟩

/-- One upsert. -/
theorem syncDependency_synced {dependency : AgentDependency}
    (h : syncDependency i t dependency = .ok t') : Synced i [dependency] t t' := by
  obtain ⟨k, hstored⟩ := syncDependency_ok h
  have honly : ∀ j a, t'.get j = some a → a.implementation = i → a.key = dependency.key → j = k :=
    fun j a hj himplementation hkey => Table.updateOrCreate_only hstored hj (by
      simp [himplementation, hkey])
  have hothers : ∀ key, key ≠ dependency.key → OneRow t i key → OneRow t' i key := by
    intro key hkey hone j k' a b hj hk' ha hb hakey hbkey
    have hback : ∀ j a, t'.get j = some a → a.implementation = i → a.key = key →
        ∃ b, t.get j = some b ∧ b.implementation = i ∧ b.key = key := by
      intro j a hj ha hakey
      rcases Table.updateOrCreate_ok hstored with ⟨_, _, rfl⟩ | ⟨c, hc, hpc, rfl⟩
      · rcases Table.get_insert_cases hj with ⟨_, rfl⟩ | ⟨_, hj⟩
        · exact absurd hakey.symm hkey
        · exact ⟨a, hj, ha, hakey⟩
      · rw [Table.get_modify] at hj
        split at hj
        · rename_i hjk
          obtain ⟨b, hb, rfl⟩ := Option.map_eq_some_iff.mp hj
          exact ⟨b, hb, ha, hakey⟩
        · exact ⟨a, hj, ha, hakey⟩
    obtain ⟨a', ha', hai, hak⟩ := hback j a hj ha hakey
    obtain ⟨b', hb', hbi, hbk⟩ := hback k' b hk' hb hbkey
    exact hone j k' a' b' ha' hb' hai hbi hak hbk
  have hone : ∀ key, (∃ d ∈ [dependency], d.key = key) ∨ OneRow t i key → OneRow t' i key := by
    intro key hcase
    by_cases hkey : key = dependency.key
    · intro j k' a b hj hk' ha hb hakey hbkey
      rw [honly j a hj ha (hakey.trans hkey), honly k' b hk' hb (hbkey.trans hkey)]
    · rcases hcase with ⟨d, hd, hdkey⟩ | hone
      · rw [List.mem_singleton.mp hd] at hdkey
        exact absurd hdkey.symm hkey
      · exact hothers key hkey hone
  rcases Table.updateOrCreate_ok hstored with ⟨hnone, rfl, rfl⟩ | ⟨a, ha, hpa, rfl⟩
  · have hmeets : ∀ j b, t.get j = some b → b.implementation = i → b.key ≠ dependency.key := by
      intro j b hj hb hkey
      have hp := hnone j b hj
      simp [hb, hkey] at hp
    refine {
      old := fun k row hk => ?_
      new := fun k row hk hnew => ?_
      later := fun k hlt hk => ?_
      grows := Nat.le_succ _
      present := fun d hd => ?_
      one := hone }
    · rw [Table.get_insert_of_get hk]
      split
      · rename_i hi
        rw [written_cons, if_neg (hmeets k row hk hi)]
        rfl
      · rfl
    · rcases Table.get_insert_cases hk with ⟨_, rfl⟩ | ⟨_, hk⟩
      · exact ⟨dependency, List.mem_singleton.mpr rfl, hmeets, (if_pos rfl).symm⟩
      · rw [hnew] at hk
        cases hk
    · rw [Table.get_insert_of_lt hlt, hk]
    · rw [List.mem_singleton.mp hd]
      exact ⟨t.next, _, Table.get_insert_next, rfl, rfl⟩
  · simp only [Bool.and_eq_true, decide_eq_true_eq] at hpa
    refine {
      old := fun j row hj => ?_
      new := fun j row hj hnew => ?_
      later := fun j hlt hj => ?_
      grows := Nat.le_refl _
      present := fun d hd => ?_
      one := hone }
    · rw [Table.get_modify, hj]
      by_cases hjk : j = k
      · subst hjk
        rw [ha] at hj
        cases hj
        rw [if_pos rfl, if_pos hpa.1, written_cons, if_pos hpa.2]
        rfl
      · rw [if_neg hjk]
        split
        · rename_i hi
          rw [written_cons]
          split
          · rename_i hkey
            have hj' : (t.modify k (AgentDependency.write dependency)).get j = some row := by
              rw [Table.get_modify_of_ne hjk, hj]
            exact absurd (honly j row hj' hi hkey) hjk
          · rfl
        · rfl
    · rw [Table.get_modify] at hj
      split at hj <;> simp [hnew] at hj
    · rw [Table.get_modify, hj]
      split <;> rfl
    · rw [List.mem_singleton.mp hd]
      refine ⟨k, AgentDependency.write dependency a, ?_, hpa.1, hpa.2⟩
      rw [Table.get_modify_self, ha]
      rfl

theorem Synced.cons {dependency : AgentDependency} {t'' : Table Dependency}
    (h : Synced i [dependency] t t') (hrest : Synced i dependencies t' t'') :
    Synced i (dependency :: dependencies) t t'' where
  old k row hk := by
    rw [hrest.old k _ (h.old k row hk)]
    by_cases hi : row.implementation = i
    · have hkept : (written [dependency] row).implementation = i := by
        rw [written_implementation, hi]
      rw [if_pos hi, if_pos hi, if_pos hkept]
      rfl
    · rw [if_neg hi, if_neg hi, if_neg hi]
  new k row hk hnew := by
    -- the row is there after the first upsert, or it comes with one of the others
    cases hmid : t'.get k with
    | none =>
      obtain ⟨d, hd, hnone, hrow⟩ := hrest.new k row hk hmid
      obtain ⟨j, a, hj, ha, hakey⟩ := h.present dependency (List.mem_singleton.mpr rfl)
      have hkey : d.key ≠ dependency.key := by
        intro hsame
        exact hnone j a hj ha (hakey.trans hsame.symm)
      refine ⟨d, List.mem_cons_of_mem _ hd, fun j a hj ha => ?_, ?_⟩
      · have hthere := h.old j a hj
        rw [if_pos ha] at hthere
        have hne := hnone j _ hthere (by rw [written_implementation, ha])
        rwa [written_key] at hne
      · rw [written_cons, if_neg hkey]
        exact hrow
    | some mid =>
      obtain ⟨d, hd, hnone, hrow⟩ := h.new k mid hmid hnew
      rw [List.mem_singleton.mp hd] at hnone hrow
      refine ⟨dependency, List.mem_cons_self, hnone, ?_⟩
      have hthere := hrest.old k mid hmid
      have himplementation : mid.implementation = i := by
        rw [hrow, written_implementation]
      rw [if_pos himplementation, hk, hrow] at hthere
      exact Option.some.inj hthere
  later k hlt hk := hrest.later k (Nat.lt_of_lt_of_le hlt h.grows) (h.later k hlt hk)
  grows := Nat.le_trans h.grows hrest.grows
  present d hd := by
    rcases List.mem_cons.mp hd with hd | hd
    · obtain ⟨k, row, hk, hi, hkey⟩ := h.present d (List.mem_singleton.mpr hd)
      have hthere := hrest.old k row hk
      rw [if_pos hi] at hthere
      exact ⟨k, _, hthere, by rw [written_implementation, hi], by rw [written_key, hkey]⟩
    · exact hrest.present d hd
  one key hcase := by
    refine hrest.one key (Or.imp_right (h.one key) ?_)
    rcases hcase with ⟨d, hd, hkey⟩ | hone
    · rcases List.mem_cons.mp hd with hd | hd
      · exact .inr (.inl ⟨d, List.mem_singleton.mpr hd, hkey⟩)
      · exact .inl ⟨d, hd, hkey⟩
    · exact .inr (.inr hone)

theorem synced_of_foldlM (h : dependencies.foldlM (syncDependency i) t = .ok t') :
    Synced i dependencies t t' := by
  induction dependencies generalizing t with
  | nil =>
    rw [foldlM_nil_iff] at h
    rw [← h]
    refine {
      old := fun k row hk => ?_
      new := fun k row hk hnew => ?_
      later := fun k _ hk => hk
      grows := Nat.le_refl _
      present := fun d hd => (by cases hd)
      one := fun key hcase => ?_ }
    · rw [hk]
      split <;> rfl
    · rw [hnew] at hk
      cases hk
    · rcases hcase with ⟨d, hd, _⟩ | hone
      · cases hd
      · exact hone
  | cons dependency dependencies ih =>
    obtain ⟨c, hc, hrest⟩ := foldlM_cons_iff.mp h
    exact (syncDependency_synced hc).cons (ih hrest)

/-! ## The declaration and what is stored -/

/-- What is stored of the implementation `i` is what was declared. -/
structure Reconciled (db : Database) (agentId : AgentId) (i : ImplementationId)
    (input : ImplementationInput) : Prop where
  declared : ∀ k row, db.dependencies.get k = some row → row.implementation = i →
    ∃ dependency ∈ input.dependencies, row = declaredRow i dependency
  present : ∀ dependency ∈ input.dependencies, ∃ k,
    db.dependencies.get k = some (declaredRow i dependency)
  one : ∀ key, OneRow db.dependencies i key
  manipulates : db.manipulates i = statesWith db agentId (input.manipulates.getD [])
  tracks : ∃ row, db.implementations.get i = some row ∧ row.tracks = input.tracks.getD []

section

variable (db : Database) (agentId : AgentId) (agent : Agent) (input : ImplementationInput)

/-- A dependency row of the implementation that no deletion takes. -/
def Left (k : Nat) (row : Dependency) : Prop :=
  ¬ AbandonsAction db agentId agent input ∧ db.dependencies.get k = some row ∧
    row.implementation = implementationKey db agentId input.interface

/-- The states before and the declarations that a registration reconciles. -/
structure Reconcilable : Prop where
  /-- Nothing is stored that is not declared any more. -/
  noStale : ∀ k row, Left db agentId agent input k row →
    ∃ dependency ∈ input.dependencies, dependency.key = row.key
  /-- The fields that are never written are declared as they are stored. -/
  same : ∀ dependency ∈ input.dependencies, ∀ k row, Left db agentId agent input k row →
    row.key = dependency.key → unwritten row = unwritten (declaredRow 0 dependency)
  /-- For a new row they are declared as the model has them by default. -/
  default : ∀ dependency ∈ input.dependencies,
    (∀ k row, Left db agentId agent input k row → row.key ≠ dependency.key) →
      unwritten (declaredRow 0 dependency) = {}
  consistent : ∀ dependency ∈ input.dependencies, ∀ other ∈ input.dependencies,
    other.key = dependency.key → other = dependency
  manipulates : input.manipulates.getD [] = [] → AbandonsAction db agentId agent input ∨
    db.manipulates (implementationKey db agentId input.interface) = ∅
  tracks : input.tracks.getD [] = [] → ∀ ref,
    findImplementation db agentId input.interface = some ref → ref.2.tracks = []

end

variable {H : Hashing} {db db₁ db₂ : Database} {agentId : AgentId} {agent : Agent}
  {input : ImplementationInput} {dropped : Option ActionId}

section

variable (hframe : clearActions db₁ = clearActions db)
  (hdropped : Dropped db₁ (findImplementation db agentId input.interface)
    (actionKey db agent input.definition) db₂ dropped)

include hframe hdropped

theorem left_iff {k : Nat} {row : Dependency} :
    db₂.dependencies.get k = some row ∧
      row.implementation = implementationKey db agentId input.interface ↔
    Left db agentId agent input k row := by
  have hdependencies := (actionFrame hframe).dependencies
  rcases dropped_cases hframe hdropped with ⟨hnot, hdb⟩ | ⟨ref, habandons, href, hdb, hdoomed⟩
  · rw [hdb, hdependencies]
    exact ⟨fun h => ⟨hnot, h⟩, fun h => h.2⟩
  · constructor
    · intro h
      obtain ⟨hget, hi⟩ := h
      rw [hdb] at hget
      have hkept := (Table.get_erase_eq_some_iff.mp hget).2
      rw [implementationKey, href] at hi
      rw [hi] at hkept
      exact absurd (hdoomed.symm.trans hkept) (by simp)
    · intro h
      exact absurd habandons h.1

theorem manipulates_iff :
    db₂.manipulates (implementationKey db agentId input.interface) = ∅ ↔
      AbandonsAction db agentId agent input ∨
        db.manipulates (implementationKey db agentId input.interface) = ∅ := by
  have hmanipulates := (actionFrame hframe).manipulates
  rcases dropped_cases hframe hdropped with ⟨hnot, hdb⟩ | ⟨ref, habandons, href, hdb, hdoomed⟩
  · rw [hdb, hmanipulates]
    exact ⟨.inr, fun h => h.resolve_left hnot⟩
  · refine ⟨fun _ => .inl habandons, fun _ => ?_⟩
    rw [hdb, implementationKey, href]
    exact if_pos hdoomed

end

theorem statesWith_nil : statesWith db agentId [] = ∅ := by
  rw [statesWith]
  refine Finset.eq_empty_of_forall_notMem fun k hk => ?_
  rw [List.mem_toFinset, List.mem_map] at hk
  obtain ⟨row, hrow, _⟩ := hk
  have hmeets := (Table.mem_select.mp hrow).2
  simp at hmeets

theorem statesWith_congr {db' : Database} {interfaces : List String} (h : db'.states = db.states) :
    statesWith db' agentId interfaces = statesWith db agentId interfaces := by
  rw [statesWith, h]
  rfl

/-- The dependencies that a registration leaves, over the rows that were left before. -/
theorem dependencies_of_createImplementation {r : Registered}
    (h : createImplementation H db agentId agent input = .ok r) :
    (∀ k row, Left db agentId agent input k row →
      r.db.dependencies.get k = some (written input.dependencies row)) ∧
    (∀ k row, r.db.dependencies.get k = some row → row.implementation = r.implementation.1 →
      (∃ before, Left db agentId agent input k before ∧
        row = written input.dependencies before) ∨
      ∃ dependency ∈ input.dependencies,
        (∀ j a, Left db agentId agent input j a → a.key ≠ dependency.key) ∧
        row = written input.dependencies
          { implementation := r.implementation.1, key := dependency.key }) ∧
    (∀ dependency ∈ input.dependencies, ∃ k row, r.db.dependencies.get k = some row ∧
      row.implementation = r.implementation.1 ∧ row.key = dependency.key) ∧
    ∀ dependency ∈ input.dependencies, OneRow r.db.dependencies r.implementation.1
      dependency.key := by
  have hkey := createImplementation_key h
  obtain ⟨db₁, db₂, _, _, hframe, hdropped, hinstalled⟩ := createImplementation_ok h
  have hsynced := synced_of_foldlM hinstalled.dependencies
  rw [hkey] at hsynced ⊢
  refine ⟨fun k row hleft => ?_, fun k row hk hi => ?_, hsynced.present,
    fun d hd => hsynced.one _ (.inl ⟨d, hd, rfl⟩)⟩
  · obtain ⟨hget, hi⟩ := (left_iff hframe hdropped).mpr hleft
    rw [hsynced.old k row hget, if_pos hi]
  · cases hbefore : db₂.dependencies.get k with
    | none =>
      obtain ⟨d, hd, hnone, hrow⟩ := hsynced.new k row hk hbefore
      refine .inr ⟨d, hd, fun j a hleft => ?_, hrow⟩
      obtain ⟨hget, ha⟩ := (left_iff hframe hdropped).mpr hleft
      exact hnone j a hget ha
    | some before =>
      have hthere := hsynced.old k before hbefore
      rw [hk] at hthere
      have hrow := Option.some.inj hthere
      by_cases hown : before.implementation = implementationKey db agentId input.interface
      · rw [if_pos hown] at hrow
        exact .inl ⟨before, (left_iff hframe hdropped).mp ⟨hbefore, hown⟩, hrow⟩
      · rw [if_neg hown] at hrow
        rw [hrow] at hi
        exact absurd hi hown

theorem links_of_createImplementation {r : Registered}
    (h : createImplementation H db agentId agent input = .ok r) :
    (r.db.manipulates r.implementation.1 =
        statesWith r.db agentId (input.manipulates.getD []) ↔
      (input.manipulates.getD [] = [] → AbandonsAction db agentId agent input ∨
        db.manipulates (implementationKey db agentId input.interface) = ∅)) ∧
    ((∃ row, r.db.implementations.get r.implementation.1 = some row ∧
        row.tracks = input.tracks.getD []) ↔
      (input.tracks.getD [] = [] → ∀ ref,
        findImplementation db agentId input.interface = some ref → ref.2.tracks = [])) := by
  have hkey := createImplementation_key h
  obtain ⟨db₁, db₂, _, _, hframe, hdropped, hinstalled⟩ := createImplementation_ok h
  have hstates := (implementationFrame hinstalled.frame).states
  constructor
  · rw [hinstalled.manipulates, statesWith_congr hstates]
    by_cases hnone : input.manipulates.getD [] = []
    · rw [if_pos hnone, hnone, statesWith_nil, hkey, manipulates_iff hframe hdropped]
      simp
    · rw [if_neg hnone, Function.update_self]
      simp [hnone]
  · rw [hinstalled.get, hinstalled.row]
    by_cases hnone : input.tracks.getD [] = []
    · simp only [hnone, if_true, Option.some.injEq, exists_eq_left', true_imp_iff]
      rw [baseRow]
      cases hf : findImplementation db agentId input.interface with
      | none => simp
      | some ref => simp
    · simp [hnone]

/-- A registration reconciles what is stored exactly where nothing has to be removed, and where
the fields that it never writes are as declared. -/
theorem reconciled_iff {r : Registered}
    (h : createImplementation H db agentId agent input = .ok r) :
    Reconciled r.db agentId r.implementation.1 input ↔ Reconcilable db agentId agent input := by
  obtain ⟨hold, hnew, hpresent, hone⟩ := dependencies_of_createImplementation h
  obtain ⟨hmanipulates, htracks⟩ := links_of_createImplementation h
  have hkey := createImplementation_key h
  constructor
  · intro hrec
    refine {
      noStale := fun k row hleft => ?_
      same := fun d hd k row hleft hrow => ?_
      default := fun d hd hnone => ?_
      consistent := fun d hd other hother hsame => ?_
      manipulates := hmanipulates.mp hrec.manipulates
      tracks := htracks.mp hrec.tracks }
    · obtain ⟨d, hd, hrow⟩ := hrec.declared k _ (hold k row hleft) (by
        rw [written_implementation, hkey, hleft.2.2])
      have hrowkey := congrArg Dependency.key hrow
      rw [written_key] at hrowkey
      exact ⟨d, hd, hrowkey.symm⟩
    · -- the row under the declared key carries the declaration
      obtain ⟨j, hj⟩ := hrec.present d hd
      have hi : (written input.dependencies row).implementation = r.implementation.1 := by
        rw [written_implementation, hkey, hleft.2.2]
      have hjk := hrec.one d.key j k _ _ hj (hold k row hleft) rfl hi rfl (by
        rw [written_key, hrow])
      rw [hjk, hold k row hleft] at hj
      have hunwritten := congrArg unwritten (Option.some.inj hj)
      rw [unwritten_written] at hunwritten
      exact hunwritten
    · obtain ⟨j, hj⟩ := hrec.present d hd
      rcases hnew j _ hj rfl with ⟨before, hleft, hrow⟩ | ⟨d', _, _, hrow⟩
      · have hbefore := congrArg Dependency.key hrow
        rw [written_key] at hbefore
        exact absurd hbefore.symm (hnone j before hleft)
      · have hunwritten := congrArg unwritten hrow
        rw [unwritten_written] at hunwritten
        exact hunwritten
    · obtain ⟨j, hj⟩ := hrec.present d hd
      obtain ⟨k, hk⟩ := hrec.present other hother
      have hjk := hrec.one d.key k j _ _ hk hj rfl rfl hsame rfl
      rw [hjk, hj] at hk
      exact (declaredRow_injective (Option.some.inj hk)).symm
  · intro hcond
    have hcarries : ∀ k row, r.db.dependencies.get k = some row →
        row.implementation = r.implementation.1 → ∀ d ∈ input.dependencies, d.key = row.key →
        row = declaredRow r.implementation.1 d := by
      intro k row hk hi d hd hdkey
      have honly := hcond.consistent d hd
      rcases hnew k row hk hi with ⟨before, hleft, hrow⟩ | ⟨d', hd', hnone, hrow⟩
      · rw [hrow, written_key] at hdkey
        rw [hrow, written_eq hd hdkey.symm honly]
        refine write_eq_declaredRow ?_ hdkey.symm (hcond.same d hd k before hleft hdkey.symm)
        rw [hkey, hleft.2.2]
      · rw [hrow, written_key] at hdkey
        have hsame := hcond.consistent d hd d' hd' hdkey.symm
        rw [hsame] at hnone hrow
        rw [hrow, written_eq hd rfl honly]
        exact write_eq_declaredRow rfl rfl (hcond.default d hd hnone).symm
    have hdeclared : ∀ k row, r.db.dependencies.get k = some row →
        row.implementation = r.implementation.1 → ∃ d ∈ input.dependencies, d.key = row.key := by
      intro k row hk hi
      rcases hnew k row hk hi with ⟨before, hleft, hrow⟩ | ⟨d, hd, _, hrow⟩
      · obtain ⟨d, hd, hdkey⟩ := hcond.noStale k before hleft
        exact ⟨d, hd, by rw [hrow, written_key, hdkey]⟩
      · exact ⟨d, hd, by rw [hrow, written_key]⟩
    refine {
      declared := fun k row hk hi => ?_
      present := fun d hd => ?_
      one := fun key j k a b hj hk ha hb hakey hbkey => ?_
      manipulates := hmanipulates.mpr hcond.manipulates
      tracks := htracks.mpr hcond.tracks }
    · obtain ⟨d, hd, hdkey⟩ := hdeclared k row hk hi
      exact ⟨d, hd, hcarries k row hk hi d hd hdkey⟩
    · obtain ⟨k, row, hk, hi, hrowkey⟩ := hpresent d hd
      refine ⟨k, ?_⟩
      rw [hk, hcarries k row hk hi d hd hrowkey.symm]
    · obtain ⟨d, hd, hdkey⟩ := hdeclared j a hj ha
      exact hone d hd j k a b hj hk ha hb hdkey.symm (by rw [hbkey, hdkey, hakey])

/-- What is declared of a new row as the model has it by default is stored. -/
theorem automatic_dependency_reconciled :
    let input := { declare "acquire" "acquire" with
      dependencies := [{ key := "stage", assignPolicy := .automatic }] }
    ∃ r, createImplementation naming laboratory 1 microscope input = .ok r ∧
      Reconciled r.db 1 r.implementation.1 input := by
  intro input
  have hnone : ∀ k row, ¬ Left laboratory 1 microscope input k row := by
    intro k row h
    cases h.2.1
  have hcond : Reconcilable laboratory 1 microscope input := {
    noStale := fun k row h => absurd h (hnone k row)
    same := fun _ _ k row h => absurd h (hnone k row)
    default := fun d hd _ => (by rw [List.mem_singleton.mp hd]; rfl)
    consistent := fun d hd other hother _ => (by
      rw [List.mem_singleton.mp hd, List.mem_singleton.mp hother])
    manipulates := fun _ => .inr rfl
    tracks := fun _ ref href => (by cases href) }
  exact ⟨_, rfl, (reconciled_iff rfl).mpr hcond⟩

/-- A dependency is declared as optional, and then not at all. It is stored as mandatory, and it
stays. -/
theorem dropped_dependency_stays :
    let input := { declare "acquire" "acquire" with
      dependencies := [{ key := "stage", optional := true, assignPolicy := .automatic }] }
    ∃ r r', createImplementation naming laboratory 1 microscope input = .ok r ∧
      createImplementation naming r.db 1 microscope (declare "acquire" "acquire") = .ok r' ∧
      ¬Reconciled r.db 1 r.implementation.1 input ∧
      ¬Reconciled r'.db 1 r'.implementation.1 (declare "acquire" "acquire") := by
  intro input
  refine ⟨_, _, rfl, rfl, ?_, ?_⟩
  · intro h
    obtain ⟨d, hd, hrow⟩ := h.declared 1 _ rfl rfl
    rw [List.mem_singleton.mp hd] at hrow
    cases congrArg Dependency.optional hrow
  · intro h
    obtain ⟨d, hd, _⟩ := h.declared 1 _ rfl rfl
    cases hd

end Registration
end Rekuest
