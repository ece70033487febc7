import Rekuest.Matching.Aliases
import Rekuest.Matching.Positional

/-!
# Rekuest.Matching.Consolidated

Many demands in one statement select what they select alone.

* `hold_portDemandSql`: the statement of port demands holds of an action that satisfies them all.
* `ids_of_select`: a `SELECT` of the `UNION ALL` has the ids that its demand has alone.
* `collectRows_getElem?`: the rows of a demand come to its place, in whatever order rows come.
* `PortDemandsConsolidate`, `ActionDemandsConsolidate`: many demands at once, against each alone.
* `consolidated_demands`: they consolidate exactly where they are refused or fit.
-/

namespace Rekuest
namespace Managers

open Coding Fallible Sql

/-! ## Port demands -/

section

variable {pathMatch : String → String → Option Bool} {db : String → List (Row SqlValue)}
  {params : String → Option SqlValue} {action : Row SqlValue}

/-- The action is of the organization, where one is given. -/
def OfOrganization (action : Row SqlValue) (org : Option SqlValue) : Prop :=
  ∀ v, org = some v → SqlEq (action "organization_id") (some v)

theorem hold_organization {org : Option SqlValue}
    (hreads : (whereSet org organizationClause).Reads params) :
    (whereSet org organizationClause).Hold pathMatch db params [("a", action)] ↔
      OfOrganization action org := by
  rw [hold_whereSet]
  exact forall₂_congr fun v hv => hold_column (reads_whereSet.mp hreads v hv)

theorem hold_allPortDemandClauses {i : Nat} {ds : List PortDemand} {b : Built}
    (hb : allPortDemandClauses i ds = .ok b) (hreads : b.Reads params) :
    b.Hold pathMatch db params [("a", action)] ↔ ∀ d ∈ ds, d.Selects pathMatch db action := by
  induction ds generalizing i b with
  | nil =>
    cases hb
    simp [Built.Hold]
  | cons d ds ih =>
    obtain ⟨first, others, hfirst, hothers, rfl⟩ := allPortDemandClauses_cons_ok_iff.mp hb
    obtain ⟨hr, hrs⟩ := Built.Reads.append_iff.mp hreads
    rw [Built.hold_append, hold_portDemandClauses hfirst hr, ih hothers hrs, List.forall_mem_cons]

/-- What the statement selects. -/
theorem hold_portDemandSql {ds : List PortDemand} {org : Option SqlValue} {b : Built}
    (hb : portDemandSql ds org = .ok b) :
    b.Hold pathMatch db b.params.get? [("a", action)] ↔
      OfOrganization action org ∧ ∀ d ∈ ds, d.Selects pathMatch db action := by
  have hreads := Built.reads_params (portDemandSql_closed hb).1
  obtain ⟨clauses, hclauses, heq, _⟩ := portDemandSql_ok_iff.mp hb
  have hparts : (whereSet org organizationClause).Reads b.params.get? ∧
      clauses.Reads b.params.get? := by
    rw [← Built.Reads.append_iff, heq]
    exact hreads
  rw [← heq, Built.hold_append, heq, hold_organization hparts.1,
    hold_allPortDemandClauses hclauses hparts.2]

theorem mem_selectIds {params : Dict SqlValue} {b : Built} (hclosed : b.Closed ["a"])
    (hapart : b.Apart ["a"]) {id : Option SqlValue} :
    id ∈ selectIds (postgres pathMatch) db params "facade_action" "a" (asRead b.conditions) ↔
      ∃ action ∈ db "facade_action", b.Hold pathMatch db params.get? [("a", action)] ∧
        action "id" = id := by
  simp only [selectIds, List.mem_map, List.mem_filter, beq_iff_eq,
    Built.evalAll_asRead hclosed hapart, evalAll_eq_true, and_assoc]
  rfl

theorem mem_idsByPortDemands {ds : List PortDemand} {org : Option SqlValue} {b : Built}
    (hb : portDemandSql ds org = .ok b)
    (hfits : ∀ (k : Nat) (d : PortDemand), ds[k]? = some d → d.Fits k) {id : Option SqlValue} :
    id ∈ selectIds (postgres pathMatch) db b.params "facade_action" "a" (asRead b.conditions) ↔
      ∃ action ∈ db "facade_action", (OfOrganization action org ∧
        ∀ d ∈ ds, d.Selects pathMatch db action) ∧ action "id" = id := by
  rw [mem_selectIds (portDemandSql_closed hb).2 ((apart_portDemandSql hb).mpr hfits)]
  exact exists_congr fun action => and_congr_right fun _ => and_congr_left fun _ =>
    hold_portDemandSql hb

theorem allPortDemandClauses_ok (i : Nat) {ds : List PortDemand}
    (h : ∀ d ∈ ds, ∃ b, portDemandClauses 0 d = .ok b) :
    ∃ b, allPortDemandClauses i ds = .ok b := by
  induction ds generalizing i with
  | nil => exact ⟨_, rfl⟩
  | cons d ds ih =>
    obtain ⟨first, hfirst⟩ := (isOk_portDemandClauses i d).mpr
      ((isOk_portDemandClauses 0 d).mp (h d List.mem_cons_self))
    obtain ⟨others, hothers⟩ := ih (i + 1) fun d hd => h d (List.mem_cons_of_mem _ hd)
    exact ⟨_, allPortDemandClauses_cons_ok_iff.mpr ⟨first, others, hfirst, hothers, rfl⟩⟩

/-- The statement of one demand. -/
theorem portDemandSql_single {d : PortDemand} {org : Option SqlValue} {b : Built}
    (hb : portDemandSql [d] org = .ok b) : ∃ first, portDemandClauses 0 d = .ok first ∧
      (whereSet org organizationClause ++ first).conditions ≠ [] := by
  obtain ⟨clauses, hclauses, rfl, hne⟩ := portDemandSql_ok_iff.mp hb
  obtain ⟨first, others, hfirst, hothers, rfl⟩ := allPortDemandClauses_cons_ok_iff.mp hclauses
  cases hothers
  refine ⟨first, hfirst, ?_⟩
  simpa using hne

/-- Demands that are accepted alone are accepted together. -/
theorem portDemandSql_ok {ds : List PortDemand} {org : Option SqlValue} (hne : ds ≠ [])
    (h : ∀ d ∈ ds, ∃ b, portDemandSql [d] org = .ok b) : ∃ b, portDemandSql ds org = .ok b := by
  obtain ⟨clauses, hclauses⟩ := allPortDemandClauses_ok 0 fun d hd => by
    obtain ⟨b, hb⟩ := h d hd
    obtain ⟨first, hfirst, _⟩ := portDemandSql_single hb
    exact ⟨first, hfirst⟩
  refine ⟨_, portDemandSql_ok_iff.mpr ⟨clauses, hclauses, rfl, ?_⟩⟩
  obtain ⟨d, ds, rfl⟩ := List.exists_cons_of_ne_nil hne
  obtain ⟨b, hb⟩ := h d List.mem_cons_self
  obtain ⟨first, hfirst, hfirst'⟩ := portDemandSql_single hb
  obtain ⟨first', others, hfirst'', _, rfl⟩ := allPortDemandClauses_cons_ok_iff.mp hclauses
  rw [hfirst] at hfirst''
  cases hfirst''
  simp only [Built.append_conditions, ne_eq, List.append_eq_nil_iff] at hfirst' ⊢
  exact fun hempty => hfirst' ⟨hempty.1, hempty.2.1⟩

end

/-! ## Action demands -/

theorem allActionDemandClauses_cons_ok_iff {repr : ActionDemandInput → String} {i : Nat}
    {d : ActionDemandInput} {ds : List ActionDemandInput} {bs : List Built} :
    allActionDemandClauses repr i (d :: ds) = .ok bs ↔ ∃ first others,
      actionDemandClauses repr d ("d" ++ toString i) = .ok first ∧
      allActionDemandClauses repr (i + 1) ds = .ok others ∧ first :: others = bs := by
  simp only [allActionDemandClauses, bind_ok_iff, pure_ok_iff, exists_and_left]

section

variable {repr : ActionDemandInput → String} {i : Nat} {ds : List ActionDemandInput}
  {bs : List Built}

theorem names_allActionDemandClauses (h : allActionDemandClauses repr i ds = .ok bs) :
    (bs.flatMap Built.names).Nodup ∧
      ∀ key ∈ bs.flatMap Built.names, ∃ j, i ≤ j ∧ OfActionDemand j key := by
  induction ds generalizing i bs with
  | nil =>
    cases h
    exact ⟨.nil, by simp⟩
  | cons d ds ih =>
    obtain ⟨first, others, hfirst, hothers, rfl⟩ := allActionDemandClauses_cons_ok_iff.mp h
    obtain ⟨hnodup, hof⟩ := names_demandConditions (actionDemandClauses_ok_iff.mp hfirst).1
    obtain ⟨hnodup', hof'⟩ := ih hothers
    rw [List.flatMap_cons]
    constructor
    · refine nodup_append_of hnodup hnodup' hof fun key hkey h => ?_
      obtain ⟨j, hj, hother⟩ := hof' key hkey
      have := h.inj hother
      omega
    · intro key hkey
      rcases List.mem_append.mp hkey with hkey | hkey
      · exact ⟨i, le_rfl, hof key hkey⟩
      · obtain ⟨j, hj, hother⟩ := hof' key hkey
        exact ⟨j, by omega, hother⟩

theorem closed_allActionDemandClauses (h : allActionDemandClauses repr i ds = .ok bs) :
    ∀ b ∈ bs, b.Closed ["a"] := by
  induction ds generalizing i bs with
  | nil =>
    cases h
    simp
  | cons d ds ih =>
    obtain ⟨first, others, hfirst, hothers, rfl⟩ := allActionDemandClauses_cons_ok_iff.mp h
    exact List.forall_mem_cons.mpr
      ⟨closed_demandConditions (actionDemandClauses_ok_iff.mp hfirst).1, ih hothers⟩

/-- What is built in the place of a demand. -/
theorem getElem?_allActionDemandClauses (h : allActionDemandClauses repr i ds = .ok bs) :
    bs.length = ds.length ∧ ∀ k d, ds[k]? = some d → ∃ b, bs[k]? = some b ∧
      actionDemandClauses repr d ("d" ++ toString (i + k)) = .ok b := by
  induction ds generalizing i bs with
  | nil =>
    cases h
    exact ⟨rfl, by simp⟩
  | cons d ds ih =>
    obtain ⟨first, others, hfirst, hothers, rfl⟩ := allActionDemandClauses_cons_ok_iff.mp h
    obtain ⟨hlength, hget⟩ := ih hothers
    refine ⟨by simp [hlength], fun k d' hd => ?_⟩
    cases k with
    | zero =>
      cases hd
      exact ⟨first, rfl, hfirst⟩
    | succ k =>
      obtain ⟨b, hb, hclauses⟩ := hget k d' hd
      exact ⟨b, hb, by rw [show i + (k + 1) = i + 1 + k by omega, hclauses]⟩

/-- All demands are accepted where each is accepted alone. -/
theorem isOk_allActionDemandClauses :
    (∃ bs, allActionDemandClauses repr i ds = .ok bs) ↔
      ∀ d ∈ ds, ∃ b, actionDemandClauses repr d ("d" ++ toString 0) = .ok b := by
  induction ds generalizing i with
  | nil => exact iff_of_true ⟨_, rfl⟩ (by simp)
  | cons d ds ih =>
    rw [List.forall_mem_cons, ← ih (i := i + 1)]
    constructor
    · rintro ⟨bs, h⟩
      obtain ⟨first, others, hfirst, hothers, _⟩ := allActionDemandClauses_cons_ok_iff.mp h
      exact ⟨isOk_actionDemandClauses _ _ _ _ ⟨first, hfirst⟩, others, hothers⟩
    · rintro ⟨hfirst, others, hothers⟩
      obtain ⟨first, hfirst⟩ := isOk_actionDemandClauses _ _ _ ("d" ++ toString i) hfirst
      exact ⟨_, allActionDemandClauses_cons_ok_iff.mpr ⟨first, others, hfirst, hothers, rfl⟩⟩

theorem OfActionDemand.ne_org {j : Nat} {key : String} (h : OfActionDemand j key) :
    key ≠ "org" := by
  rintro rfl
  obtain ⟨mark, opening, ho, path, hwords⟩ := h
  have horg : words "org" = ["org".toList] := by decide
  rw [horg] at hwords
  rcases ho with rfl | ⟨tag, _, rfl⟩
  · have hhead := congrArg List.head? (List.cons.inj hwords).1
    exact absurd hhead (by simp [placeWord])
  · simp at hwords

/-- The parameters of the statement are as they were set, those of the organization among them. -/
theorem reads_actionDemands (org : Option SqlValue)
    (h : allActionDemandClauses repr i ds = .ok bs) :
    (whereSet org organizationClause).Reads (Dict.update [] ((whereSet org
      organizationClause).assigned ++ bs.flatMap Built.assigned)).get? ∧
    ∀ b ∈ bs, b.Reads (Dict.update [] ((whereSet org organizationClause).assigned ++
      bs.flatMap Built.assigned)).get? := by
  obtain ⟨hnodup, hof⟩ := names_allActionDemandClauses h
  have hnames : (bs.flatMap Built.assigned).map Prod.fst = bs.flatMap Built.names := by
    rw [List.map_flatMap]
    rfl
  have horg : ∀ key ∈ (whereSet org organizationClause).names, key = "org" := by
    intro key hkey
    have hsub : List.Sublist (whereSet org organizationClause).names ["org"] :=
      names_whereSet fun _ => rfl
    exact List.mem_singleton.mp (hsub.subset hkey)
  have hall : (((whereSet org organizationClause).assigned ++
      bs.flatMap Built.assigned).map Prod.fst).Nodup := by
    rw [List.map_append, hnames]
    refine nodup_append_of (P := (· = "org")) ?_ hnodup horg fun key hkey => ?_
    · cases org with
      | none => exact .nil
      | some v => exact List.nodup_singleton _
    · obtain ⟨j, _, hj⟩ := hof key hkey
      exact hj.ne_org
  constructor
  · exact fun kv hkv => Dict.get?_update_of_nodup hall (List.mem_append_left _ hkv)
  · intro b hb kv hkv
    exact Dict.get?_update_of_nodup hall
      (List.mem_append_right _ (List.mem_flatMap.mpr ⟨b, hb, hkv⟩))

end

/-! ## The rows of the union -/

section

variable {α : Type}

/-- The rows of a place come to its place, in their order. -/
theorem collectRows_getElem? {results : List (List α)} {rows : List (Nat × α)} (k : Nat) :
    (collectRows results rows)[k]? =
      results[k]?.map (· ++ (rows.filter fun row => row.1 = k).map Prod.snd) := by
  induction rows generalizing results with
  | nil => simp [collectRows]
  | cons row rows ih =>
    show (collectRows (results.modify row.1 (· ++ [row.2])) rows)[k]? = _
    rw [ih, List.getElem?_modify]
    by_cases hk : row.1 = k
    · simp [hk, Function.comp_def]
    · simp [hk]

theorem length_collectRows {results : List (List α)} {rows : List (Nat × α)} :
    (collectRows results rows).length = results.length := by
  induction rows generalizing results with
  | nil => rfl
  | cons row rows ih =>
    show (collectRows (results.modify row.1 (· ++ [row.2])) rows).length = _
    rw [ih, List.length_modify]

/-- Of the rows of all places, those of one place. -/
theorem filter_zipIdx {β : Type} (ids : β → List α) (xs : List β) (i k : Nat) :
    ((xs.zipIdx i).flatMap fun p => (ids p.1).map fun id => (p.2, id)).filter
        (fun row => row.1 = i + k) =
      (xs[k]?.map fun x => (ids x).map fun id => (i + k, id)).getD [] := by
  induction xs generalizing i k with
  | nil => simp
  | cons x xs ih =>
    rw [List.zipIdx_cons, List.flatMap_cons, List.filter_append]
    cases k with
    | zero =>
      have hrest : (((xs.zipIdx (i + 1)).flatMap fun p => (ids p.1).map fun id => (p.2, id)).filter
          fun row => row.1 = i + 0) = [] := by
        rw [List.filter_eq_nil_iff]
        intro row hrow
        obtain ⟨p, hp, hrow⟩ := List.mem_flatMap.mp hrow
        obtain ⟨id, _, rfl⟩ := List.mem_map.mp hrow
        have := List.le_snd_of_mem_zipIdx hp
        simp only [decide_eq_true_eq]
        omega
      rw [hrest]
      simp [List.filter_map, Function.comp_def]
    | succ k =>
      have hfirst : (((ids x).map fun id => (i, id)).filter fun row => row.1 = i + (k + 1)) = [] := by
        simp [List.filter_eq_nil_iff]
      rw [hfirst, List.nil_append, show i + (k + 1) = i + 1 + k by omega, ih]
      simp

end

/-! ## Results -/

section

variable {pathMatch : String → String → Option Bool} {db : String → List (Row SqlValue)}
  {repr : ActionDemandInput → String} {org : Option SqlValue}

theorem actionDemandsSql_ok_iff {ds : List ActionDemandInput} {selects : List (List Clause)}
    {params : Dict SqlValue} :
    actionDemandsSql repr ds org = .ok (selects, params) ↔ ∃ bs,
      allActionDemandClauses repr 0 ds = .ok bs ∧
      selects = bs.map (fun b => (whereSet org organizationClause).conditions ++ b.conditions) ∧
      params = Dict.update []
        ((whereSet org organizationClause).assigned ++ bs.flatMap Built.assigned) := by
  unfold actionDemandsSql
  simp only [bind_ok_iff, pure_ok_iff, Prod.mk.injEq]
  exact exists_congr fun bs => and_congr_right fun _ => and_congr eq_comm eq_comm

open Classical in
/-- The ids that a demand selects, whatever statement it stands in. -/
noncomputable def demandIds (pathMatch : String → String → Option Bool)
    (db : String → List (Row SqlValue)) (org : Option SqlValue) (d : ActionDemandInput) :
    List (Option SqlValue) :=
  ((db "facade_action").filter fun action =>
    OfOrganization action org ∧ d.Selects pathMatch db action).map fun action => action "id"

theorem ids_of_select (pathMatch : String → String → Option Bool)
    (db : String → List (Row SqlValue)) (org : Option SqlValue) {ds : List ActionDemandInput}
    {bs : List Built} (h : allActionDemandClauses repr 0 ds = .ok bs) {k : Nat}
    {d : ActionDemandInput} (hd : ds[k]? = some d) (hfits : d.Fits k) : ∃ b, bs[k]? = some b ∧
      selectIds (postgres pathMatch) db (Dict.update []
          ((whereSet org organizationClause).assigned ++ bs.flatMap Built.assigned))
        "facade_action" "a" (asRead ((whereSet org organizationClause).conditions ++ b.conditions)) =
      demandIds pathMatch db org d := by
  obtain ⟨b, hb, hclauses⟩ := (getElem?_allActionDemandClauses h).2 k d hd
  rw [Nat.zero_add] at hclauses
  have hconditions := (actionDemandClauses_ok_iff.mp hclauses).1
  have hclosed : (whereSet org organizationClause ++ b).Closed ["a"] :=
    closed_organization.append (closed_demandConditions hconditions)
  have hapart : (whereSet org organizationClause ++ b).Apart ["a"] :=
    Built.apart_append_iff.mpr ⟨apart_organization, (apart_demandConditions hconditions).mpr hfits⟩
  obtain ⟨horg, hreads⟩ := reads_actionDemands org h
  refine ⟨b, hb, congrArg (List.map _) (List.filter_congr fun action _ => ?_)⟩
  have hparts : ((whereSet org organizationClause) ++ b).Hold pathMatch db _ [("a", action)] ↔
      OfOrganization action org ∧ d.Selects pathMatch db action :=
    Built.hold_append.trans (and_congr (hold_organization horg)
      (hold_demandConditions hconditions (hreads b (List.mem_of_getElem? hb))))
  classical
  rw [← Built.append_conditions, Built.evalAll_asRead hclosed hapart, Bool.eq_iff_iff, beq_iff_eq,
    evalAll_eq_true, decide_eq_true_eq]
  exact hparts

/-- The result for the demand in a place. -/
theorem results_getElem? {order : List (Nat × Option SqlValue) → List (Nat × Option SqlValue)}
    (horder : ∀ rows, (order rows).Perm rows) {ds : List ActionDemandInput}
    {results : List (List (Option SqlValue))}
    (hfits : ∀ (k : Nat) (d : ActionDemandInput), ds[k]? = some d → d.Fits k)
    (h : getActionIdsByActionDemands (postgres pathMatch) db order repr ds org = .ok results) :
    results.length = ds.length ∧ ∀ (k : Nat) (d : ActionDemandInput), ds[k]? = some d →
      ∃ ids : List (Option SqlValue), results[k]? = some ids ∧
        ids.Perm (demandIds pathMatch db org d) := by
  obtain ⟨⟨selects, params⟩, hsql, h⟩ := bind_ok_iff.mp h
  obtain ⟨bs, hbs, rfl, rfl⟩ := actionDemandsSql_ok_iff.mp hsql
  have hlength := (getElem?_allActionDemandClauses hbs).1
  dsimp only at h
  split at h
  · rename_i hempty
    cases pure_ok_iff.mp h
    rw [List.isEmpty_iff, List.map_eq_nil_iff] at hempty
    subst hempty
    have hds : ds = [] := List.length_eq_zero_iff.mp hlength.symm
    subst hds
    exact ⟨rfl, by simp⟩
  · cases pure_ok_iff.mp h
    refine ⟨by rw [length_collectRows, List.length_map], fun k d hd => ?_⟩
    obtain ⟨b, hb, hids⟩ := ids_of_select pathMatch db org hbs hd (hfits k d hd)
    rw [collectRows_getElem?, List.getElem?_map, hd]
    refine ⟨_, rfl, ?_⟩
    dsimp only
    rw [List.nil_append]
    refine (((horder _).filter _).map _).trans (.of_eq ?_)
    have hfilter := filter_zipIdx (fun conditions => selectIds (postgres pathMatch) db (Dict.update []
      ((whereSet org organizationClause).assigned ++ bs.flatMap Built.assigned))
      "facade_action" "a" (asRead conditions)) (bs.map fun b =>
        (whereSet org organizationClause).conditions ++ b.conditions) 0 k
    rw [Nat.zero_add] at hfilter
    rw [actionDemandRows, hfilter, List.getElem?_map, hb, ← hids]
    simp [Function.comp_def]

/-- Demands are accepted together where each is accepted alone. -/
theorem isOk_getActionIds (pathMatch : String → String → Option Bool)
    (db : String → List (Row SqlValue)) (repr : ActionDemandInput → String) (org : Option SqlValue)
    (order order' : List (Nat × Option SqlValue) → List (Nat × Option SqlValue))
    (ds : List ActionDemandInput) :
    (∃ results,
      getActionIdsByActionDemands (postgres pathMatch) db order repr ds org = .ok results) ↔
      ∀ d ∈ ds, ∃ results,
        getActionIdsByActionDemands (postgres pathMatch) db order' repr [d] org = .ok results := by
  have hok : ∀ (order : List (Nat × Option SqlValue) → List (Nat × Option SqlValue))
      (ds : List ActionDemandInput), (∃ results,
      getActionIdsByActionDemands (postgres pathMatch) db order repr ds org = .ok results) ↔
      ∃ bs, allActionDemandClauses repr 0 ds = .ok bs := by
    intro order ds
    constructor
    · rintro ⟨results, h⟩
      obtain ⟨⟨selects, params⟩, hsql, _⟩ := bind_ok_iff.mp h
      obtain ⟨bs, hbs, _⟩ := actionDemandsSql_ok_iff.mp hsql
      exact ⟨bs, hbs⟩
    · rintro ⟨bs, hbs⟩
      have hsql : actionDemandsSql repr ds org = .ok (_, _) :=
        actionDemandsSql_ok_iff.mpr ⟨bs, hbs, rfl, rfl⟩
      unfold getActionIdsByActionDemands
      rw [bind_ok hsql]
      dsimp only
      split
      · exact ⟨_, rfl⟩
      · exact ⟨_, rfl⟩
  rw [hok, isOk_allActionDemandClauses]
  refine forall₂_congr fun d _ => ?_
  rw [hok, isOk_allActionDemandClauses]
  simp

/-- The ids of one statement are those that every demand selects alone. -/
theorem mem_getActionIdsByPortDemands
    (hid : ((db "facade_action").map fun action => action "id").Nodup) {ds : List PortDemand}
    (hne : ds ≠ []) (h : ∀ d ∈ ds, ∃ b, portDemandSql [d] org = .ok b)
    (hfits : ∀ (k : Nat) (d : PortDemand), ds[k]? = some d → d.Fits k) :
    ∃ ids, getActionIdsByPortDemands (postgres pathMatch) db ds org = .ok ids ∧
      ∀ id, id ∈ ids ↔ ∀ d ∈ ds, ∃ ids',
        getActionIdsByPortDemands (postgres pathMatch) db [d] org = .ok ids' ∧ id ∈ ids' := by
  obtain ⟨b, hb⟩ := portDemandSql_ok hne h
  refine ⟨_, bind_ok hb, fun id => ?_⟩
  have halone : ∀ d ∈ ds, (∃ ids',
      getActionIdsByPortDemands (postgres pathMatch) db [d] org = .ok ids' ∧ id ∈ ids') ↔
      ∃ action ∈ db "facade_action", (OfOrganization action org ∧
        d.Selects pathMatch db action) ∧ action "id" = id := by
    intro d hd
    obtain ⟨b', hb'⟩ := h d hd
    have hids : getActionIdsByPortDemands (postgres pathMatch) db [d] org =
        .ok (selectIds (postgres pathMatch) db b'.params "facade_action" "a"
          (asRead b'.conditions)) := bind_ok hb'
    obtain ⟨k, hk⟩ := List.mem_iff_getElem?.mp hd
    have halone : ∀ (j : Nat) (d' : PortDemand), [d][j]? = some d' → d'.Fits j := by
      intro j d' hj
      cases j with
      | zero =>
        cases hj
        exact (hfits k d hk).alone
      | succ j => cases hj
    rw [hids]
    simp only [Except.ok.injEq, exists_eq_left', mem_idsByPortDemands hb' halone,
      List.mem_singleton, forall_eq]
  rw [mem_idsByPortDemands hb hfits, forall₂_congr halone]
  constructor
  · rintro ⟨action, haction, ⟨horg, hall⟩, hid⟩ d hd
    exact ⟨action, haction, ⟨horg, hall d hd⟩, hid⟩
  · intro hall
    obtain ⟨d, ds', rfl⟩ := List.exists_cons_of_ne_nil hne
    obtain ⟨action, haction, ⟨horg, _⟩, rfl⟩ := hall d List.mem_cons_self
    refine ⟨action, haction, ⟨horg, fun d' hd' => ?_⟩, rfl⟩
    -- the ids are the primary key, so that every demand selects the one action
    obtain ⟨action', haction', ⟨_, hselects⟩, hsame⟩ := hall d' hd'
    rw [List.inj_on_of_nodup_map hid haction' haction hsame] at hselects
    exact hselects

theorem placeholders_actionDemandsPieces {D : Dialect JsonOp JsonTest SqlValue}
    {selects : List (List Clause)} {index : Nat} :
    placeholders (actionDemandsPieces D index selects) = selects.flatMap Cond.allKeys := by
  induction selects generalizing index with
  | nil => rfl
  | cons conditions selects ih =>
    cases selects with
    | nil => simp [actionDemandsPieces, Cond.placeholders_allPieces]
    | cons conditions' selects =>
      rw [actionDemandsPieces, placeholders_raw, placeholders_append, placeholders_raw, ih,
        Cond.placeholders_allPieces]
      · rfl
      · simp

/-- In the statement of action demands only the name of the organization is used again. -/
theorem actionDemandsSql_names {ds : List ActionDemandInput} {selects : List (List Clause)}
    {params : Dict SqlValue} (h : actionDemandsSql repr ds org = .ok (selects, params)) :
    ((selects.flatMap Cond.allKeys).filter (· ≠ "org")).Nodup := by
  obtain ⟨bs, hbs, rfl, rfl⟩ := actionDemandsSql_ok_iff.mp h
  have hclosed := closed_allActionDemandClauses hbs
  have horg : (whereSet org organizationClause).Closed ["a"] := closed_organization
  have hnames : ∀ key ∈ (whereSet org organizationClause).names, key = "org" := by
    intro key hkey
    have hsub : List.Sublist (whereSet org organizationClause).names ["org"] :=
      names_whereSet fun _ => rfl
    exact List.mem_singleton.mp (hsub.subset hkey)
  obtain ⟨hnodup, hof⟩ := names_allActionDemandClauses hbs
  have hkeys : ((bs.map fun b => (whereSet org organizationClause).conditions ++
      b.conditions).flatMap Cond.allKeys).filter (· ≠ "org") = bs.flatMap Built.names := by
    clear hnodup hbs h
    induction bs with
    | nil => rfl
    | cons b bs ih =>
      have hrest := ih (fun b hb => hclosed b (List.mem_cons_of_mem _ hb))
        fun key hkey => hof key (List.mem_flatMap.mpr (by
          obtain ⟨b, hb, hkey⟩ := List.mem_flatMap.mp hkey
          exact ⟨b, List.mem_cons_of_mem _ hb, hkey⟩))
      have hb : b.names.filter (· ≠ "org") = b.names := by
        rw [List.filter_eq_self]
        intro key hkey
        obtain ⟨j, _, hj⟩ := hof key (List.mem_flatMap.mpr ⟨b, List.mem_cons_self, hkey⟩)
        simpa using hj.ne_org
      have horg' : (whereSet org organizationClause).names.filter (· ≠ "org") = [] := by
        rw [List.filter_eq_nil_iff]
        intro key hkey
        simpa using hnames key hkey
      rw [List.map_cons, List.flatMap_cons, List.filter_append, hrest, allKeys_append,
        List.filter_append, horg.keys, (hclosed b List.mem_cons_self).keys, hb, horg',
        List.flatMap_cons, List.nil_append]
  rw [hkeys]
  exact hnodup

/-- The aliases of the statement stay apart where the matches of its demands fit. -/
theorem actionDemandsSql_apart_iff {ds : List ActionDemandInput} {selects : List (List Clause)}
    {params : Dict SqlValue} (h : actionDemandsSql repr ds org = .ok (selects, params)) :
    (∀ conditions ∈ selects, Built.Apart ["a"] ⟨conditions, []⟩) ↔
      ∀ (k : Nat) (d : ActionDemandInput), ds[k]? = some d → d.Fits k := by
  obtain ⟨bs, hbs, rfl, rfl⟩ := actionDemandsSql_ok_iff.mp h
  obtain ⟨hlength, hget⟩ := getElem?_allActionDemandClauses hbs
  have hplace : ∀ (k : Nat) (d : ActionDemandInput) (b : Built), ds[k]? = some d → bs[k]? = some b →
      (Built.Apart ["a"] ⟨(whereSet org organizationClause).conditions ++ b.conditions, []⟩ ↔
        d.Fits k) := by
    intro k d b hd hb
    obtain ⟨b', hb', hclauses⟩ := hget k d hd
    cases hb.symm.trans hb'
    rw [Nat.zero_add] at hclauses
    rw [← apart_demandConditions (actionDemandClauses_ok_iff.mp hclauses).1]
    have happend : Built.Apart ["a"] (whereSet org organizationClause ++ b) ↔
        Built.Apart ["a"] (whereSet org organizationClause) ∧ Built.Apart ["a"] b :=
      Built.apart_append_iff
    exact happend.trans (and_iff_right apart_organization)
  constructor
  · intro hall k d hd
    obtain ⟨b, hb, _⟩ := hget k d hd
    exact (hplace k d b hd hb).mp (hall _ (List.mem_map_of_mem (List.mem_of_getElem? hb)))
  · intro hfits conditions hconditions
    obtain ⟨b, hb, rfl⟩ := List.mem_map.mp hconditions
    obtain ⟨k, hk⟩ := List.mem_iff_getElem?.mp hb
    have hlt : k < ds.length := by
      rw [← hlength]
      exact (List.getElem?_eq_some_iff.mp hk).1
    obtain ⟨d, hd⟩ : ∃ d, ds[k]? = some d := ⟨_, List.getElem?_eq_getElem hlt⟩
    exact (hplace k d b hd hk).mpr (hfits k d hd)

end

/-! ## Results -/

/-- Together the port demands select the intersection of what they select alone. The placeholders of
their statement have names of their own, no alias captures another, and with numbered placeholders
the server gets the same statement. -/
structure PortDemandsConsolidate (pathMatch : String → String → Option Bool)
    (db : String → List (Row SqlValue)) (org : Option SqlValue) (ds : List PortDemand) : Prop where
  ids : ∃ ids, getActionIdsByPortDemands (postgres pathMatch) db ds org = .ok ids ∧
    ∀ id, id ∈ ids ↔ ∀ d ∈ ds, ∃ ids',
      getActionIdsByPortDemands (postgres pathMatch) db [d] org = .ok ids' ∧ id ∈ ids'
  names : ∀ b, portDemandSql ds org = .ok b →
    (placeholders (portDemandPieces (postgres pathMatch) b)).Nodup
  aliases : ∀ b, portDemandSql ds org = .ok b → b.Apart ["a"]
  positional : ∀ b, portDemandSql ds org = .ok b →
    ∃ sql values, toPositional (text (portDemandPieces (postgres pathMatch) b)) b.params =
        some (sql, values) ∧
      bindPositional sql values =
        bindNamed b.params.get? (text (portDemandPieces (postgres pathMatch) b))

/-- To each action demand goes what it selects alone, and all are refused where one of them would
be. No two placeholders share a name, but for that of the organization, which has one value in the
whole statement, and no alias captures another. -/
structure ActionDemandsConsolidate (pathMatch : String → String → Option Bool)
    (db : String → List (Row SqlValue))
    (order order' : List (Nat × Option SqlValue) → List (Nat × Option SqlValue))
    (repr : ActionDemandInput → String) (org : Option SqlValue) (ds : List ActionDemandInput) :
    Prop where
  accepted : (∃ results,
    getActionIdsByActionDemands (postgres pathMatch) db order repr ds org = .ok results) ↔
    ∀ d ∈ ds, ∃ results,
      getActionIdsByActionDemands (postgres pathMatch) db order' repr [d] org = .ok results
  results : ∀ results,
    getActionIdsByActionDemands (postgres pathMatch) db order repr ds org = .ok results →
    results.length = ds.length ∧ ∀ (k : Nat) (d : ActionDemandInput), ds[k]? = some d →
      ∃ ids ids' : List (Option SqlValue), results[k]? = some ids ∧
        getActionIdsByActionDemands (postgres pathMatch) db order' repr [d] org = .ok [ids'] ∧
        ids.Perm ids'
  names : ∀ selects params, actionDemandsSql repr ds org = .ok (selects, params) →
    ((placeholders (actionDemandsPieces (postgres pathMatch) 0 selects)).filter (· ≠ "org")).Nodup
  aliases : ∀ selects params, actionDemandsSql repr ds org = .ok (selects, params) →
    ∀ conditions ∈ selects, Built.Apart ["a"] ⟨conditions, []⟩

section

variable {pathMatch : String → String → Option Bool} {db : String → List (Row SqlValue)}
  {repr : ActionDemandInput → String} {org : Option SqlValue}
  {order order' : List (Nat × Option SqlValue) → List (Nat × Option SqlValue)}

theorem portDemandsConsolidate_iff
    (hid : ((db "facade_action").map fun action => action "id").Nodup) {ds : List PortDemand}
    (hne : ds ≠ []) (h : ∀ d ∈ ds, ∃ b, portDemandSql [d] org = .ok b) :
    PortDemandsConsolidate pathMatch db org ds ↔
      ∀ (k : Nat) (d : PortDemand), ds[k]? = some d → d.Fits k := by
  constructor
  · intro hconsolidate
    obtain ⟨b, hb⟩ := portDemandSql_ok hne h
    exact (apart_portDemandSql hb).mp (hconsolidate.aliases b hb)
  · intro hfits
    refine ⟨mem_getActionIdsByPortDemands hid hne h hfits, fun b hb => ?_,
      fun b hb => (apart_portDemandSql hb).mpr hfits, fun b hb => toPositional_portDemandSql hb⟩
    obtain ⟨hnodup, hclosed⟩ := portDemandSql_closed hb
    rw [placeholders_portDemandPieces hclosed]
    exact hnodup

/-- The results of all demands, against those of each alone. -/
theorem results_alone (horder : ∀ rows, (order rows).Perm rows)
    (horder' : ∀ rows, (order' rows).Perm rows) {ds : List ActionDemandInput}
    (hfits : ∀ (k : Nat) (d : ActionDemandInput), ds[k]? = some d → d.Fits k)
    {results : List (List (Option SqlValue))}
    (h : getActionIdsByActionDemands (postgres pathMatch) db order repr ds org = .ok results) :
    results.length = ds.length ∧ ∀ (k : Nat) (d : ActionDemandInput), ds[k]? = some d →
      ∃ ids ids' : List (Option SqlValue), results[k]? = some ids ∧
        getActionIdsByActionDemands (postgres pathMatch) db order' repr [d] org = .ok [ids'] ∧
        ids.Perm ids' := by
  obtain ⟨hlength, hget⟩ := results_getElem? horder hfits h
  refine ⟨hlength, fun k d hd => ?_⟩
  obtain ⟨ids, hids, hperm⟩ := hget k d hd
  obtain ⟨alone, halone⟩ := (isOk_getActionIds pathMatch db repr org order order' ds).mp ⟨results, h⟩
    d (List.mem_of_getElem? hd)
  have hfitsAlone : ∀ (j : Nat) (d' : ActionDemandInput), [d][j]? = some d' → d'.Fits j := by
    intro j d' hj
    cases j with
    | zero =>
      cases hj
      exact (hfits k d hd).alone
    | succ j => cases hj
  obtain ⟨hone, hgetOne⟩ := results_getElem? horder' hfitsAlone halone
  obtain ⟨ids', hids', hperm'⟩ := hgetOne 0 d rfl
  refine ⟨ids, ids', hids, ?_, hperm.trans hperm'.symm⟩
  rw [halone]
  obtain ⟨x, rfl⟩ := List.length_eq_one_iff.mp hone
  cases hids'
  rfl

theorem actionDemandsConsolidate_iff (horder : ∀ rows, (order rows).Perm rows)
    (horder' : ∀ rows, (order' rows).Perm rows) {ds : List ActionDemandInput} :
    ActionDemandsConsolidate pathMatch db order order' repr org ds ↔
      ((∀ d ∈ ds, ∃ results,
        getActionIdsByActionDemands (postgres pathMatch) db order' repr [d] org = .ok results) →
        ∀ (k : Nat) (d : ActionDemandInput), ds[k]? = some d → d.Fits k) := by
  have haccepted := isOk_getActionIds pathMatch db repr org order order' ds
  have hstatement : (∃ results,
      getActionIdsByActionDemands (postgres pathMatch) db order repr ds org = .ok results) ↔
      ∃ selects params, actionDemandsSql repr ds org = .ok (selects, params) := by
    constructor
    · rintro ⟨results, h⟩
      obtain ⟨⟨selects, params⟩, hsql, _⟩ := bind_ok_iff.mp h
      exact ⟨selects, params, hsql⟩
    · rintro ⟨selects, params, hsql⟩
      unfold getActionIdsByActionDemands
      rw [bind_ok hsql]
      dsimp only
      split
      · exact ⟨_, rfl⟩
      · exact ⟨_, rfl⟩
  constructor
  · intro hconsolidate hall
    obtain ⟨selects, params, hsql⟩ := hstatement.mp (haccepted.mpr hall)
    exact (actionDemandsSql_apart_iff hsql).mp (hconsolidate.aliases selects params hsql)
  · intro hfits
    refine ⟨haccepted, fun results h => ?_, fun selects params hsql => ?_,
      fun selects params hsql => ?_⟩
    · exact results_alone horder horder' (hfits (haccepted.mp ⟨results, h⟩)) h
    · rw [placeholders_actionDemandsPieces]
      exact actionDemandsSql_names hsql
    · exact (actionDemandsSql_apart_iff hsql).mpr
        (hfits (haccepted.mp (hstatement.mpr ⟨selects, params, hsql⟩)))

end

/-- **Consolidation.** Demands that are accepted are consolidated just when of their matches those
with matches below have aliases of less than 63 bytes, which is what the server keeps of each. -/
theorem consolidated_demands (pathMatch : String → String → Option Bool)
    (db : String → List (Row SqlValue))
    (hid : ((db "facade_action").map fun action => action "id").Nodup)
    (order order' : List (Nat × Option SqlValue) → List (Nat × Option SqlValue))
    (horder : ∀ rows, (order rows).Perm rows) (horder' : ∀ rows, (order' rows).Perm rows)
    (repr : ActionDemandInput → String) (org : Option SqlValue) :
    (∀ ds : List PortDemand, ds ≠ [] → (∀ d ∈ ds, ∃ b, portDemandSql [d] org = .ok b) →
      (PortDemandsConsolidate pathMatch db org ds ↔
        ∀ (k : Nat) (d : PortDemand), ds[k]? = some d → d.Fits k)) ∧
    ∀ ds : List ActionDemandInput,
      ActionDemandsConsolidate pathMatch db order order' repr org ds ↔
        ((∀ d ∈ ds, ∃ results,
          getActionIdsByActionDemands (postgres pathMatch) db order' repr [d] org = .ok results) →
          ∀ (k : Nat) (d : ActionDemandInput), ds[k]? = some d → d.Fits k) :=
  ⟨fun _ hne h => portDemandsConsolidate_iff hid hne h,
    fun _ => actionDemandsConsolidate_iff horder horder'⟩

/-- Two actions, with one argument and with two. -/
def twoActions : String → List (Row SqlValue)
  | "facade_action" =>
    [fun column => if column = "id" then some (.int 1) else
        if column = "arg_count" then some (.int 1) else none,
      fun column => if column = "id" then some (.int 2) else
        if column = "arg_count" then some (.int 2) else none]
  | _ => []

/-- A demand for one argument, and one for no structures among the arguments. -/
def oneArgument : PortDemand := { kind := "args", forceLength := some 1 }

def noStructures : PortDemand := { kind := "args", forceStructureLength := some 0 }

theorem consolidated_demands_two :
    PortDemandsConsolidate (fun _ _ => none) twoActions none [oneArgument, noStructures] := by
  refine ((consolidated_demands (fun _ _ => none) twoActions (by simp [twoActions]) id id
    (fun _ => .refl _) (fun _ => .refl _) (fun _ => "") none).1 _ (by simp) ?_).mpr ?_
  · intro d hd
    simp only [List.mem_cons, List.not_mem_nil, or_false] at hd
    rcases hd with rfl | rfl
    · exact ⟨_, rfl⟩
    · exact ⟨_, rfl⟩
  · intro k d hd
    match k, hd with
    | 0, rfl => trivial
    | 1, rfl => trivial

/-- A match with this many matches below it, each in the one before. -/
def nestedMatch : Nat → PortMatch
  | 0 => { key := some "x" }
  | n + 1 => { key := some "x", children := [nestedMatch n] }

theorem length_of_fits {n : Nat} {idPath : String} (h : (nestedMatch (n + 1)).Fits idPath) :
    (snake "p" idPath).length + 2 * n < 63 := by
  induction n generalizing idPath with
  | zero => exact h.1 (List.cons_ne_nil _ _)
  | succ n ih =>
    have hchild := ih h.2.1
    have hzero : (toString 0).length = 1 := by decide
    rw [length_snake "p", length_snake idPath, hzero] at hchild
    rw [length_snake]
    omega

/-- One demand with a match of thirty levels below its root: of the aliases of the last two the
server keeps the same 63 bytes. -/
theorem alias_captured : ∃ b,
    portDemandSql [{ kind := "args", matches_ := [nestedMatch 30] }] none = .ok b ∧
      ¬ b.Apart ["a"] := by
  obtain ⟨b, hb⟩ : ∃ b, portDemandSql [{ kind := "args", matches_ := [nestedMatch 30] }] none =
      .ok b := ⟨_, rfl⟩
  refine ⟨b, hb, fun hapart => ?_⟩
  have hfits : PortDemand.Fits 0 { kind := "args", matches_ := [nestedMatch 30] } :=
    (apart_portDemandSql hb).mp hapart 0 _ rfl
  have hlong := length_of_fits (n := 29) hfits.1
  have hroot : (snake "p" (snake (toString 0) (toString 0))).length = 5 := by decide
  rw [hroot] at hlong
  omega

end Managers
end Rekuest
