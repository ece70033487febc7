import Rekuest.Materialization

/-!
# Rekuest.Materialization.Outcomes

What the two mutations on materialized bloks leave behind, however they end.

* `Upserted`, `Placed`: the state after the materialization was written, and after its placement.
* `Failure`: where `materializeBlok` raises, and the state that it leaves.
* `materializeBlok_ends`, `updateMaterializedBlok_ends`: every way in which they end.
-/

namespace Rekuest

open Fallible Interleave Attempt

/-! ## Dependencies -/

theorem mappedDeps_id {mappings : Option (List BlokAgentMappingInput)} {key : String}
    {value : AgentValue} (h : (mappedDeps mappings).get? key = some value) :
    ∃ text, value = .id text := by
  have hids : ∀ m ∈ mappedDeps mappings, ∃ text, m.2 = AgentValue.id text := by
    have hempty : ∀ m ∈ ([] : Dict AgentValue), ∃ text, m.2 = AgentValue.id text := by simp
    refine Dict.forall_update (P := fun v => ∃ text, v = AgentValue.id text) hempty fun m hm => ?_
    obtain ⟨dep, _, rfl⟩ := List.mem_map.mp hm
    exact ⟨dep.agent, rfl⟩
  exact hids _ (Dict.mem_of_get? h)

/-- No mapping is ever written: the field is given the id of an agent. -/
theorem assignAgent_id (s : Boards) (mblok dependency : Nat) (text : String) :
    ∃ e, s.assignAgent mblok dependency (.id text) = .error e := by
  unfold Boards.assignAgent
  split
  · exact ⟨_, rfl⟩
  · exact ⟨_, rfl⟩
  · exact ⟨_, rfl⟩

namespace Boards

variable (s : Boards) (blok : Nat) (mappings : Option (List BlokAgentMappingInput))

def Independent : Prop := ∀ d row, s.blokDependencies.get d = some row → row.blok ≠ blok

/-- Some dependency of the blok has a mapping. -/
def AnyMapped : Prop :=
  ∃ d row, s.blokDependencies.get d = some row ∧ row.blok = blok ∧
    ((mappedDeps mappings).get? row.key).isSome = true

end Boards

variable {rank : Nat → Nat} {toPython : String → Except Error Nat} {s : Boards} {blok mblok : Nat}
  {mapped : Dict AgentValue}

theorem dependenciesOf_ends :
    Ends (dependenciesOf rank blok) s
      (fun deps t => t = s ∧ ∀ d row, (d, row) ∈ deps ↔
        s.blokDependencies.get d = some row ∧ row.blok = blok)
      (fun _ _ => False) := by
  refine ends_look ⟨rfl, fun d row => ?_⟩
  rw [Table.mem_selectBy, decide_eq_true_iff]

/-! ## The loops -/

theorem assign_ends {dependency : Nat} {value : AgentValue} (h : ∃ text, value = .id text) :
    Ends (atomically (Boards.assignAgent · mblok dependency value)) s (fun _ _ => False)
      (fun _ t => t = s) := by
  obtain ⟨text, rfl⟩ := h
  obtain ⟨e, he⟩ := assignAgent_id s mblok dependency text
  refine ends_atomically (fun r hr => ?_) fun _ _ => rfl
  rw [he] at hr
  cases hr

theorem meet_of_unmapped {deps : List (Nat × BlokDependency)} {notMet : Bool}
    (h : ∀ dep ∈ deps, mapped.get? dep.2.key = none) :
    Ends (deps.foldlM (meet mblok mapped) notMet) s
      (fun unmet t => t = s ∧ unmet = (notMet || !deps.isEmpty)) (fun _ _ => False) := by
  induction deps generalizing notMet with
  | nil => exact ends_pure ⟨rfl, by simp⟩
  | cons dep deps ih =>
    rw [List.foldlM_cons]
    have hmeet : meet mblok mapped notMet dep = pure true := by
      rw [meet, h dep List.mem_cons_self]
    rw [hmeet]
    refine ends_bind (ends_pure ?_)
    refine (ih fun dep' hdep => h dep' (List.mem_cons_of_mem _ hdep)).mono ?_ fun _ _ hf => hf
    rintro unmet t ⟨ht, hunmet⟩
    exact ⟨ht, by simp [hunmet]⟩

/-- The loop breaks at the first dependency that has a mapping. -/
theorem meet_of_mapped {deps : List (Nat × BlokDependency)} {notMet : Bool}
    (hids : ∀ key value, mapped.get? key = some value → ∃ text, value = .id text)
    (h : ∃ dep ∈ deps, (mapped.get? dep.2.key).isSome = true) :
    Ends (deps.foldlM (meet mblok mapped) notMet) s (fun _ _ => False) (fun _ t => t = s) := by
  induction deps generalizing notMet with
  | nil => simp at h
  | cons dep deps ih =>
    rw [List.foldlM_cons]
    cases hget : mapped.get? dep.2.key with
    | some value =>
      have hmeet : meet mblok mapped notMet dep = (do
          atomically (Boards.assignAgent · mblok dep.1 value)
          return notMet) := by
        rw [meet, hget]
      rw [hmeet]
      refine ends_bind (ends_bind ((assign_ends (hids _ _ hget)).mono ?_ fun _ _ ht => ht))
      intro _ _ hf
      exact hf.elim
    | none =>
      have hmeet : meet mblok mapped notMet dep = pure true := by
        rw [meet, hget]
      rw [hmeet]
      refine ends_bind (ends_pure (ih ?_))
      obtain ⟨dep', hmem, hsome⟩ := h
      rcases List.mem_cons.mp hmem with rfl | hmem
      · rw [hget] at hsome
        cases hsome
      · exact ⟨dep', hmem, hsome⟩

/-- The loop breaks at the first dependency, with or without a mapping. -/
theorem remap_ends {deps : List (Nat × BlokDependency)}
    (hids : ∀ key value, mapped.get? key = some value → ∃ text, value = .id text) :
    Ends (deps.forM (remap mblok mapped)) s (fun _ t => t = s ∧ deps = [])
      (fun _ t => t = s ∧ deps ≠ []) := by
  cases deps with
  | nil => exact ends_pure ⟨rfl, rfl⟩
  | cons dep deps =>
    show Ends (remap mblok mapped dep >>= fun _ => deps.forM (remap mblok mapped)) s _ _
    refine ends_bind ?_
    unfold remap
    cases hget : mapped.get? dep.2.key with
    | some value =>
      exact (assign_ends (hids _ _ hget)).mono (fun _ _ hf => hf.elim) fun _ _ ht =>
        ⟨ht, List.cons_ne_nil _ _⟩
    | none => exact ends_raise ⟨rfl, List.cons_ne_nil _ _⟩

/-! ## The stages of a materialization -/

inductive Upserted (s : Boards) (blok : Nat) : Nat → Boards → Prop where
  | created : s.materializations blok = [] → (s.bloks.get blok).isSome = true →
      Upserted s blok s.materializedBloks.next (s.create blok)
  | found {mblok : Nat} {row : MaterializedBlok} : s.materializations blok = [(mblok, row)] →
      Upserted s blok mblok s

theorem upsert_ends :
    Ends (atomically (Boards.upsert · blok)) s (Upserted s blok)
      (fun _ t => t = s ∧ ((s.materializations blok = [] ∧ (s.bloks.get blok).isSome = false) ∨
        2 ≤ (s.materializations blok).length)) := by
  refine ends_atomically (fun r hr => ?_) fun e he => ⟨rfl, ?_⟩
  · unfold Boards.upsert at hr
    split at hr
    · rename_i hnone
      split at hr
      · rename_i hblok
        cases hr
        exact .created hnone hblok
      · cases hr
    · rename_i row hrow
      cases hr
      exact .found hrow
    · cases hr
  · unfold Boards.upsert at he
    split at he
    · rename_i hnone
      split at he
      · cases he
      · rename_i hblok
        exact .inl ⟨hnone, Bool.eq_false_iff.mpr hblok⟩
    · cases he
    · rename_i hnone hone
      right
      cases hrows : s.materializations blok with
      | nil => exact absurd hrows hnone
      | cons row rows =>
        cases rows with
        | nil => exact absurd hrows (hone row)
        | cons row' rows => simp

variable (toPython) in
/-- The dashboard, if one is given, is there. -/
def Boards.Found (s : Boards) (dashboard : Option String) : Prop :=
  ∀ text, dashboard.filter (· ≠ "") = some text →
    ∃ id, toPython text = .ok id ∧ (s.dashboards.get id).isSome = true

variable (toPython) in
inductive Placed (s : Boards) (mblok : Nat) (dashboard : Option String) : Boards → Prop where
  | nowhere : dashboard.filter (· ≠ "") = none → Placed s mblok dashboard s
  | on {text : String} {id : Nat} (h : (s.materializedBloks.get mblok).isSome = true) :
      dashboard.filter (· ≠ "") = some text → toPython text = .ok id →
      (s.dashboards.get id).isSome = true → Placed s mblok dashboard (s.place id mblok h)

theorem placeOn_ends {dashboard : Option String}
    (h : (s.materializedBloks.get mblok).isSome = true) :
    Ends (placeOn toPython mblok dashboard) s (fun _ t => Placed toPython s mblok dashboard t)
      (fun _ t => t = s ∧ ¬ s.Found toPython dashboard) := by
  unfold placeOn
  cases hgiven : dashboard.filter (· ≠ "") with
  | none => exact ends_pure (.nowhere hgiven)
  | some text =>
    refine ends_bind (ends_attempt (fun id hid => ?_) fun e he => ⟨rfl, fun hfound => ?_⟩)
    · refine ends_bind (ends_look ?_)
      cases hdashboard : s.dashboards.get id with
      | none =>
        refine ends_bind (ends_raise ⟨rfl, fun hfound => ?_⟩)
        obtain ⟨id', hid', hsome⟩ := hfound text hgiven
        rw [hid] at hid'
        cases hid'
        rw [hdashboard] at hsome
        cases hsome
      | some row =>
        refine ends_bind (ends_pure (ends_atomically (fun r hr => ?_) fun e he => ?_))
        · rw [Boards.createPlacement, dif_pos h] at hr
          cases hr
          exact .on h hgiven hid (by rw [hdashboard]; rfl)
        · rw [Boards.createPlacement, dif_pos h] at he
          cases he
    · obtain ⟨id, hid, _⟩ := hfound text hgiven
      rw [he] at hid
      cases hid

/-! ## The mutations -/

variable (rank toPython) in
/-- Where `materializeBlok` raises, and the state that it leaves. -/
inductive Failure (s : Boards) (input : MaterializeBlokInput) : Boards → Prop where
  | unread : (∀ blok, toPython input.blok ≠ .ok blok) → Failure s input s
  | noBlok {blok : Nat} : toPython input.blok = .ok blok → s.materializations blok = [] →
      (s.bloks.get blok).isSome = false → Failure s input s
  | several {blok : Nat} : toPython input.blok = .ok blok →
      2 ≤ (s.materializations blok).length → Failure s input s
  | noDashboard {blok mblok : Nat} {t : Boards} : toPython input.blok = .ok blok →
      Upserted s blok mblok t → ¬ t.Found toPython input.dashboard → Failure s input t
  | mapped {blok mblok : Nat} {t u : Boards} : toPython input.blok = .ok blok →
      Upserted s blok mblok t → Placed toPython t mblok input.dashboard u →
      s.AnyMapped blok input.agentMappings → Failure s input u
  | unmet {blok mblok : Nat} {t u : Boards} : toPython input.blok = .ok blok →
      Upserted s blok mblok t → Placed toPython t mblok input.dashboard u →
      ¬ s.AnyMapped blok input.agentMappings → ¬ s.Independent blok →
      Failure s input (u.delete mblok)

theorem Upserted.there {t : Boards} (h : Upserted s blok mblok t) :
    ∃ row, t.materializedBloks.get mblok = some row ∧ row.blok = blok := by
  cases h with
  | created _ _ => exact ⟨⟨blok⟩, Table.get_insert_next, rfl⟩
  | found hrow =>
    rename_i row
    have hmem : (mblok, row) ∈ s.materializations blok := by
      rw [hrow]
      exact List.mem_singleton.mpr rfl
    obtain ⟨hget, hblok⟩ := Table.mem_select.mp hmem
    exact ⟨row, hget, of_decide_eq_true hblok⟩

/-- Neither the materialization nor its placement touches what is looked up later. -/
theorem Upserted.same {t : Boards} (h : Upserted s blok mblok t) :
    t.blokDependencies = s.blokDependencies ∧ t.dashboards = s.dashboards := by
  cases h with
  | created _ _ => exact ⟨rfl, rfl⟩
  | found _ => exact ⟨rfl, rfl⟩

theorem Placed.same {t : Boards} {dashboard : Option String}
    (h : Placed toPython s mblok dashboard t) :
    t.blokDependencies = s.blokDependencies ∧ t.materializedBloks = s.materializedBloks := by
  cases h with
  | nowhere _ => exact ⟨rfl, rfl⟩
  | on _ _ _ _ => exact ⟨rfl, rfl⟩

theorem Placed.found {t : Boards} {dashboard : Option String}
    (h : Placed toPython s mblok dashboard t) : s.Found toPython dashboard := by
  intro text htext
  cases h with
  | nowhere hnone =>
    rw [hnone] at htext
    cases htext
  | on _ hgiven hid hthere =>
    rw [hgiven] at htext
    cases htext
    exact ⟨_, hid, hthere⟩

theorem materializeBlok_ends {input : MaterializeBlokInput} :
    Ends (materializeBlok rank toPython input) s
      (fun mblok u => ∃ blok t, toPython input.blok = .ok blok ∧ Upserted s blok mblok t ∧
        Placed toPython t mblok input.dashboard u ∧ s.Independent blok)
      (fun _ t => Failure toPython s input t) := by
  unfold materializeBlok
  refine ends_bind (ends_attempt (fun blok hblok => ?_) fun e he => .unread fun blok hblok => ?_)
  · refine ends_bind (upsert_ends.mono (fun mblok t hup => ?_) ?_)
    · obtain ⟨row, hrow, _⟩ := hup.there
      refine ends_bind ((placeOn_ends (by rw [hrow]; rfl)).mono (fun _ u hplaced => ?_) ?_)
      · refine ends_bind (dependenciesOf_ends.mono ?_ fun _ _ hf => hf.elim)
        rintro deps _ ⟨rfl, hdeps⟩
        rw [hplaced.same.1, hup.same.1] at hdeps
        by_cases hmapped : s.AnyMapped blok input.agentMappings
        · refine ends_bind ((meet_of_mapped (fun _ _ => mappedDeps_id) ?_).mono ?_ ?_)
          · obtain ⟨d, dep, hget, hof, hsome⟩ := hmapped
            exact ⟨(d, dep), (hdeps d dep).mpr ⟨hget, hof⟩, hsome⟩
          · exact fun _ _ hf => hf.elim
          · rintro _ _ rfl
            exact .mapped hblok hup hplaced hmapped
        · refine ends_bind ((meet_of_unmapped fun dep hdep => ?_).mono ?_ ?_)
          · obtain ⟨hget, hof⟩ := (hdeps dep.1 dep.2).mp hdep
            cases hsome : (mappedDeps input.agentMappings).get? dep.2.key with
            | none => rfl
            | some value => exact absurd ⟨dep.1, dep.2, hget, hof, by rw [hsome]; rfl⟩ hmapped
          · rintro notMet _ ⟨rfl, rfl⟩
            cases deps with
            | nil =>
              refine ends_bind (ends_pure (ends_pure ⟨blok, t, hblok, hup, hplaced, ?_⟩))
              intro d dep hget hof
              cases (hdeps d dep).mpr ⟨hget, hof⟩
            | cons dep deps =>
              refine ends_bind (ends_write (ends_bind (ends_raise ?_)))
              refine .unmet hblok hup hplaced hmapped fun hnone => ?_
              obtain ⟨hget, hof⟩ := (hdeps dep.1 dep.2).mp List.mem_cons_self
              exact hnone _ _ hget hof
          · exact fun _ _ hf => hf.elim
      · rintro e _ ⟨rfl, hfound⟩
        exact .noDashboard hblok hup hfound
    · rintro e _ ⟨rfl, ⟨hnone, hno⟩ | hseveral⟩
      · exact .noBlok hblok hnone hno
      · exact .several hblok hseveral
  · rw [he] at hblok
    cases hblok

theorem updateMaterializedBlok_ends {input : UpdateMaterializedBlokInput} :
    Ends (updateMaterializedBlok rank toPython input) s
      (fun mblok t => ∃ row, toPython input.id = .ok mblok ∧
        s.materializedBloks.get mblok = some row ∧ t = s.save mblok row ∧
        (input.agentMappings = none ∨ s.Independent row.blok))
      (fun _ t => t = s ∧ ∀ mblok row, toPython input.id = .ok mblok →
        s.materializedBloks.get mblok = some row → ¬ s.Independent row.blok) := by
  unfold updateMaterializedBlok
  refine ends_bind (ends_attempt (fun id hid => ?_) fun e he => ⟨rfl, fun _ _ hid => ?_⟩)
  · refine ends_bind (ends_look ?_)
    cases hrow : s.materializedBloks.get id with
    | none =>
      refine ends_raise ⟨rfl, fun mblok row hm hget => ?_⟩
      rw [hid] at hm
      cases hm
      rw [hrow] at hget
      cases hget
    | some row =>
      cases hmappings : input.agentMappings with
      | none =>
        refine ends_bind (ends_write (ends_pure ?_))
        exact ⟨row, hid, hrow, rfl, .inl rfl⟩
      | some mappings =>
        refine ends_bind (dependenciesOf_ends.mono ?_ fun _ _ hf => hf.elim)
        rintro deps _ ⟨rfl, hdeps⟩
        refine ends_bind ((remap_ends fun _ _ => mappedDeps_id).mono ?_ ?_)
        · rintro _ _ ⟨rfl, hnil⟩
          refine ends_bind (ends_write (ends_pure ⟨row, hid, hrow, rfl, .inr ?_⟩))
          intro d dep hget hof
          have hmem := (hdeps d dep).mpr ⟨hget, hof⟩
          rw [hnil] at hmem
          cases hmem
        · rintro _ _ ⟨rfl, hne⟩
          refine ⟨rfl, fun mblok row' hm hget hnone => ?_⟩
          rw [hid] at hm
          cases hm
          rw [hrow] at hget
          cases hget
          obtain ⟨dep, hdep⟩ := List.exists_mem_of_ne_nil _ hne
          obtain ⟨hdepget, hof⟩ := (hdeps dep.1 dep.2).mp hdep
          exact hnone _ _ hdepget hof
  · rw [he] at hid
    cases hid

end Rekuest
