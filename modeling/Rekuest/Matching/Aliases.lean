import Rekuest.Matching.Parameters

/-!
# Rekuest.Matching.Aliases

The aliases of a statement as the server reads them: of each it keeps 63 bytes.

* `Built.Apart`: no alias of what was built hides another, read so.
* `PortMatch.Fits`: a match that has children has a shorter alias. The alias of a child goes on from
  that of its parent, so that beyond 63 bytes the two are one.
* `apart_allPortDemandClauses`, `apart_demandConditions`: demands whose matches fit are those whose
  aliases stay apart. `Built.evalAll_asRead`: these hold where they hold as they were written.
-/

namespace Rekuest
namespace Managers

open Coding Fallible Sql

/-- As they are read, no alias hides one of the scope. -/
def Built.Apart (scope : List String) (b : Built) : Prop :=
  Cond.FreshAll (scope.map (clip 63)) (asRead b.conditions)

mutual
/-- Every alias of the tree with matches below it is shorter than 63 bytes. -/
def PortMatch.Fits (idPath : String) : PortMatch → Prop
  | ⟨_, _, _, _, _, _, _, children⟩ =>
    (children ≠ [] → (snake "p" idPath).length < 63) ∧ AllFit idPath 0 children

def AllFit (idPath : String) (index : Nat) : List PortMatch → Prop
  | [] => True
  | m :: ms => m.Fits (snake idPath (toString index)) ∧ AllFit idPath (index + 1) ms
end

/-- The matches of the demand in this place fit. -/
def PortDemand.Fits (demandIndex : Nat) (d : PortDemand) : Prop :=
  AllFit (toString demandIndex) 0 d.matches_

/-- So do those of an action demand, unless its hash replaces them. -/
def ActionDemandInput.Fits (index : Nat) (d : ActionDemandInput) : Prop :=
  truthy d.hash = none →
    AllFit (snake ("d" ++ toString index) "arg") 0 d.argMatches ∧
      AllFit (snake ("d" ++ toString index) "ret") 0 d.returnMatches

theorem length_snake (a b : String) : (snake a b).length = a.length + 1 + b.length := by
  have hsep : "_".length = 1 := by decide
  rw [snake, String.length_append, String.length_append, hsep]

/-! ## Shorter paths -/

mutual
theorem PortMatch.Fits.mono {idPath idPath' : String} (hle : idPath'.length ≤ idPath.length) :
    ∀ {m : PortMatch}, m.Fits idPath → m.Fits idPath'
  | ⟨_, _, _, _, _, _, _, _⟩, h => by
    refine ⟨fun hne => ?_, AllFit.mono hle h.2⟩
    have hshort := h.1 hne
    rw [length_snake] at hshort ⊢
    omega

theorem AllFit.mono {idPath idPath' : String} (hle : idPath'.length ≤ idPath.length) {i : Nat} :
    ∀ {ms : List PortMatch}, AllFit idPath i ms → AllFit idPath' i ms
  | [], _ => trivial
  | _ :: _, h => by
    refine ⟨PortMatch.Fits.mono ?_ h.1, AllFit.mono hle h.2⟩
    rw [length_snake, length_snake]
    omega
end

theorem length_toString_pos (n : Nat) : 0 < (toString n).length := by
  have hlist : (toString n).toList = numeral n := by simp [numeral]
  have hlength : (toString n).length = (toString n).toList.length := rfl
  rw [hlength, hlist]
  exact List.length_pos_iff.mpr Nat.toDigits_ne_nil

/-- What fits in its place fits where it stands alone. -/
theorem PortDemand.Fits.alone {i : Nat} {d : PortDemand} (h : d.Fits i) : d.Fits 0 := by
  have hzero : (toString 0).length = 1 := by decide
  refine AllFit.mono ?_ h
  rw [hzero]
  exact length_toString_pos i

theorem ActionDemandInput.Fits.alone {i : Nat} {d : ActionDemandInput} (h : d.Fits i) :
    d.Fits 0 := by
  have hplace : ∀ tag : String, (snake ("d" ++ toString 0) tag).length ≤
      (snake ("d" ++ toString i) tag).length := by
    intro tag
    have hpos := length_toString_pos i
    have hzero : (toString 0).length = 1 := by decide
    rw [length_snake, length_snake, String.length_append, String.length_append, hzero]
    omega
  exact fun hhash => ⟨AllFit.mono (hplace _) (h hhash).1, AllFit.mono (hplace _) (h hhash).2⟩

/-! ## What is built apart -/

section

variable {scope : List String} {b c : Built}

theorem Built.apart_append_iff : (b ++ c).Apart scope ↔ b.Apart scope ∧ c.Apart scope := by
  unfold Built.Apart
  rw [append_conditions, asRead, Cond.renamedAll_append]
  simp only [freshAll_iff, List.mem_append, or_imp, forall_and]

theorem Built.Apart.empty : Built.Apart scope {} := trivial

theorem Built.Apart.concat {bs : List Built} (h : ∀ b ∈ bs, b.Apart scope) :
    (Built.concat bs).Apart scope := by
  induction bs with
  | nil => exact .empty
  | cons b bs ih =>
    exact apart_append_iff.mpr
      ⟨h b List.mem_cons_self, ih fun c hc => h c (List.mem_cons_of_mem _ hc)⟩

theorem Built.Apart.whereSet {α : Type} {value : Option α} {build : α → Built}
    (h : ∀ x, (build x).Apart scope) : (whereSet value build).Apart scope := by
  cases value with
  | none => exact .empty
  | some x => exact h x

/-- A condition without a subquery. -/
theorem apart_eq {l r : Operand} {key : String} {value : SqlValue} :
    (Built.one (.eq l r) key value).Apart scope := ⟨trivial, trivial⟩

theorem apart_structural (label idPath : String) (f : StructuralField) :
    (f.build label idPath).Apart scope := by
  unfold StructuralField.build
  cases f.value with
  | none => exact .empty
  | some value => exact apart_eq

theorem apart_descriptors (label idPath : String) (m : PortMatch) :
    (m.buildDescriptors label idPath).Apart scope := by
  unfold PortMatch.buildDescriptors
  split
  · exact .empty
  · exact ⟨⟨trivial, trivial⟩, trivial⟩

theorem apart_correlated (actionLabel label : String) (parentLabel : Option String) :
    Built.Apart scope ⟨correlated actionLabel label parentLabel, []⟩ := by
  cases parentLabel with
  | none => exact ⟨trivial, trivial, trivial⟩
  | some parentLabel => exact ⟨trivial, trivial⟩

/-- Around the children of a match only they have subqueries. -/
theorem apart_inner {actionLabel idPath : String} {parentLabel : Option String} {m : PortMatch}
    {nested : Built} :
    (innerClauses actionLabel parentLabel idPath m nested).Apart scope ↔ nested.Apart scope := by
  unfold innerClauses
  rw [Built.apart_append_iff, Built.apart_append_iff, Built.apart_append_iff]
  refine ⟨fun h => h.2, fun h => ⟨⟨⟨apart_correlated _ _ _, .concat fun c hc => ?_⟩,
    apart_descriptors _ _ m⟩, h⟩⟩
  obtain ⟨f, _, rfl⟩ := List.mem_map.mp hc
  exact apart_structural _ _ f

end

/-! ## Matches -/

/-- The aliases in scope stay apart, and are shorter than what is kept and than the next alias. -/
structure Below (scope : List String) (idPath : String) : Prop where
  nodup : (scope.map (clip 63)).Nodup
  short : ∀ label ∈ scope, label.length < 63 ∧ label.length < (snake "p" idPath).length

section

variable {scope : List String} {idPath : String}

theorem Below.cons (h : Below scope idPath) :
    ((snake "p" idPath :: scope).map (clip 63)).Nodup := by
  refine List.nodup_cons.mpr ⟨fun hmem => ?_, h.nodup⟩
  obtain ⟨label, hlabel, heq⟩ := List.mem_map.mp hmem
  obtain ⟨hkept, hshorter⟩ := h.short label hlabel
  have hlength := congrArg String.length heq
  rw [length_clip, length_clip] at hlength
  omega

theorem Below.child (h : Below scope idPath) (hshort : (snake "p" idPath).length < 63) (i : Nat) :
    Below (snake "p" idPath :: scope) (snake idPath (toString i)) where
  nodup := h.cons
  short label hlabel := by
    rw [length_snake "p", length_snake idPath]
    rcases List.mem_cons.mp hlabel with rfl | hlabel
    · rw [length_snake] at hshort ⊢
      omega
    · obtain ⟨hkept, hshorter⟩ := h.short label hlabel
      rw [length_snake] at hshorter
      omega

theorem below_root (idPath : String) : Below ["a"] idPath where
  nodup := List.nodup_singleton _
  short label hlabel := by
    have hone : "a".length = 1 := by decide
    have hp : "p".length = 1 := by decide
    rw [List.mem_singleton.mp hlabel, length_snake, hone, hp]
    omega

/-- Where the alias of a match is longer, its children have the same one. -/
theorem clip_child (h : 63 ≤ (snake "p" idPath).length) (i : Nat) :
    clip 63 (snake "p" (snake idPath (toString i))) = clip 63 (snake "p" idPath) := by
  have hgoes : snake "p" (snake idPath (toString i)) =
      snake "p" idPath ++ ("_" ++ toString i) := by
    simp [snake, String.append_assoc]
  rw [hgoes, clip_append h]

mutual
theorem apart_buildMatchExists {table actionLabel : String} {parentLabel : Option String}
    {m : PortMatch} {idPath : String} {scope : List String} {b : Built}
    (hb : buildMatchExists table actionLabel parentLabel idPath m = .ok b)
    (hbelow : Below scope idPath) : b.Apart scope ↔ m.Fits idPath := by
  obtain ⟨_, nested, hnested, rfl⟩ := buildMatchExists_ok_iff.mp hb
  have hchildren : nested.Apart (snake "p" idPath :: scope) ↔ m.Fits idPath := by
    cases m with
    | mk _ _ _ _ _ _ _ children => exact apart_buildChildren hnested hbelow
  rw [← hchildren]
  constructor
  · exact fun h => apart_inner.mp h.1.2
  · exact fun h => ⟨⟨hbelow.cons, apart_inner.mpr h⟩, trivial⟩

theorem apart_buildChildren {table actionLabel : String} {ms : List PortMatch} {idPath : String}
    {i : Nat} {scope : List String} {b : Built}
    (hb : buildChildren table actionLabel (snake "p" idPath) idPath i ms = .ok b)
    (hbelow : Below scope idPath) : b.Apart (snake "p" idPath :: scope) ↔
      (ms ≠ [] → (snake "p" idPath).length < 63) ∧ AllFit idPath i ms := by
  cases ms with
  | nil =>
    cases hb
    exact iff_of_true trivial ⟨fun h => absurd rfl h, trivial⟩
  | cons m ms =>
    obtain ⟨first, others, hfirst, hothers, rfl⟩ := buildChildren_cons_ok_iff.mp hb
    rw [Built.apart_append_iff]
    by_cases hshort : (snake "p" idPath).length < 63
    · rw [apart_buildMatchExists hfirst (hbelow.child hshort i), apart_buildChildren hothers hbelow]
      simp [AllFit, hshort]
    · refine iff_of_false (fun h => ?_) fun h => hshort (h.1 (List.cons_ne_nil _ _))
      obtain ⟨_, nested, _, rfl⟩ := buildMatchExists_ok_iff.mp hfirst
      have hnodup := List.nodup_cons.mp h.1.1.1
      refine hnodup.1 ?_
      rw [clip_child (not_lt.mp hshort)]
      exact List.mem_cons_self
end

theorem apart_buildMatches {table : String} {ms : List PortMatch} {i : Nat} {b : Built}
    (hb : buildMatches table "a" idPath i ms = .ok b) :
    b.Apart ["a"] ↔ AllFit idPath i ms := by
  induction ms generalizing i b with
  | nil =>
    cases hb
    exact iff_of_true trivial trivial
  | cons m ms ih =>
    obtain ⟨first, others, hfirst, hothers, rfl⟩ := buildMatches_cons_ok_iff.mp hb
    rw [Built.apart_append_iff, apart_buildMatchExists hfirst (below_root _), ih hothers, AllFit]

end

/-! ## Demands -/

theorem apart_rootCount {table key : String} {extra : Clause} {n : Int}
    (hextra : extra = nonNullablePort ∨ extra = structurePort) :
    (rootCountSubquery table "a" extra key n).Apart ["a"] := by
  have hnodup : (["pc", "a"].map (clip 63)).Nodup := by decide
  rcases hextra with rfl | rfl
  · exact ⟨⟨hnodup, trivial, trivial, trivial, trivial⟩, trivial⟩
  · exact ⟨⟨hnodup, trivial, trivial, trivial, trivial⟩, trivial⟩

theorem apart_portDemandClauses {i : Nat} {d : PortDemand} {b : Built}
    (hb : portDemandClauses i d = .ok b) : b.Apart ["a"] ↔ d.Fits i := by
  obtain ⟨table, found, _, hfound, rfl⟩ := portDemandClauses_ok_iff.mp hb
  rw [PortDemand.Fits, ← apart_buildMatches hfound]
  unfold demandClauses
  rw [Built.apart_append_iff, Built.apart_append_iff, Built.apart_append_iff]
  exact ⟨fun h => h.1.1.1, fun h => ⟨⟨⟨h, .whereSet fun n => apart_eq⟩,
    .whereSet fun n => apart_rootCount (.inl rfl)⟩, .whereSet fun n => apart_rootCount (.inr rfl)⟩⟩

theorem apart_allPortDemandClauses {i : Nat} {ds : List PortDemand} {b : Built}
    (hb : allPortDemandClauses i ds = .ok b) :
    b.Apart ["a"] ↔ ∀ (k : Nat) (d : PortDemand), ds[k]? = some d → d.Fits (i + k) := by
  induction ds generalizing i b with
  | nil =>
    cases hb
    exact iff_of_true trivial (by simp)
  | cons d ds ih =>
    obtain ⟨first, others, hfirst, hothers, rfl⟩ := allPortDemandClauses_cons_ok_iff.mp hb
    rw [Built.apart_append_iff, apart_portDemandClauses hfirst, ih hothers]
    constructor
    · rintro ⟨hd, hds⟩ k d' hk
      cases k with
      | zero =>
        cases hk
        exact hd
      | succ k =>
        have hfits := hds k d' hk
        rwa [Nat.add_assoc, Nat.add_comm 1 k] at hfits
    · intro h
      refine ⟨h 0 d rfl, fun k d' hk => ?_⟩
      have hfits := h (k + 1) d' hk
      rwa [Nat.add_comm k 1, ← Nat.add_assoc] at hfits

theorem apart_organization {org : Option SqlValue} :
    (whereSet org organizationClause).Apart ["a"] := .whereSet fun _ => apart_eq

theorem apart_portDemandSql {ds : List PortDemand} {org : Option SqlValue} {b : Built}
    (hb : portDemandSql ds org = .ok b) :
    b.Apart ["a"] ↔ ∀ (k : Nat) (d : PortDemand), ds[k]? = some d → d.Fits k := by
  obtain ⟨clauses, hclauses, rfl, _⟩ := portDemandSql_ok_iff.mp hb
  rw [Built.apart_append_iff, apart_allPortDemandClauses hclauses]
  simp only [Nat.zero_add]
  exact and_iff_right apart_organization

theorem apart_protocolClause (pre : String) (i : Nat) (name : String) :
    (protocolClause pre i name).Apart ["a"] := by
  -- the two aliases and that of the action differ in their first characters
  have hp : ∀ key : String, (clip 63 (snake "p" key)).toList.take 2 = ['p', '_'] := by
    intro key
    simp [clip, snake]
  have hap : ∀ key : String, (clip 63 (snake "ap" key)).toList.take 2 = ['a', 'p'] := by
    intro key
    simp [clip, snake]
  have ha : (clip 63 "a").toList.take 2 = ['a'] := by decide
  refine ⟨⟨List.Nodup.of_map (fun label => label.toList.take 2) ?_, trivial, trivial, trivial⟩,
    trivial⟩
  show [(clip 63 (snake "p" _)).toList.take 2, (clip 63 (snake "ap" _)).toList.take 2,
    (clip 63 "a").toList.take 2].Nodup
  rw [hp, hap, ha]
  decide

theorem apart_demandConditions {i : Nat} {d : ActionDemandInput} {b : Built}
    (hb : demandConditions d ("d" ++ toString i) = .ok b) : b.Apart ["a"] ↔ d.Fits i := by
  rcases demandConditions_ok_iff.mp hb with ⟨hash, hhash, rfl⟩ | ⟨hhash, args, returns, ha, hr, rfl⟩
  · refine iff_of_true apart_eq fun hnone => ?_
    rw [hnone] at hhash
    cases hhash
  · have hcolumn : ∀ (tag column : String) (value : SqlValue),
        (actionColumn ("d" ++ toString i) tag column value).Apart ["a"] := fun _ _ _ => apart_eq
    have happ : ∀ app : String, (appClause ("d" ++ toString i) app).Apart ["a"] := by
      intro app
      have hnodup : (["authentikate_app", "a"].map (clip 63)).Nodup := by decide
      exact ⟨⟨hnodup, trivial, trivial⟩, trivial⟩
    have hprotocols : (protocolClauses ("d" ++ toString i) d.protocols).Apart ["a"] := by
      refine .concat fun c hc => ?_
      obtain ⟨p, _, rfl⟩ := List.mem_map.mp hc
      exact apart_protocolClause _ _ _
    have hset : ∀ {α : Type} (value : Option α) (build : α → Built), (∀ x, (build x).Apart ["a"]) →
        ((whereSet value build).Apart ["a"] ↔ True) :=
      fun _ _ h => iff_of_true (.whereSet h) trivial
    have hfits : d.Fits i ↔ args.Apart ["a"] ∧ returns.Apart ["a"] := by
      rw [apart_buildMatches ha, apart_buildMatches hr]
      exact ⟨fun h => h hhash, fun h _ => h⟩
    rw [hfits]
    unfold fieldClauses
    simp only [Built.apart_append_iff, hset _ _ happ, hset _ _ fun _ => hcolumn _ _ _, hprotocols,
      true_and, and_true]

/-! ## What the server finds -/

/-- Conditions whose aliases stay apart hold, as they are read, where they hold as written. -/
theorem Built.evalAll_asRead {pathMatch : String → String → Option Bool}
    {db : String → List (Row SqlValue)} {params : String → Option SqlValue} {action : Row SqlValue}
    {b : Built} (hclosed : b.Closed ["a"]) (hapart : b.Apart ["a"]) :
    Cond.evalAll (postgres pathMatch) db params [("a", action)] (asRead b.conditions) =
      Cond.evalAll (postgres pathMatch) db params [("a", action)] b.conditions := by
  have ha : clip 63 "a" = "a" := clip_of_le (by decide)
  have hscope : Scope.renamed (clip 63) [("a", action)] = [("a", action)] := by
    rw [Scope.renamed, List.map_singleton, ha]
  have heval : Cond.evalAll (postgres pathMatch) db params (Scope.renamed (clip 63) [("a", action)])
      (asRead b.conditions) = Cond.evalAll (postgres pathMatch) db params [("a", action)] b.conditions :=
    Cond.evalAll_renamed b.conditions [("a", action)] (List.nodup_singleton _) hclosed.mentions hapart
  rwa [hscope] at heval

end Managers
end Rekuest
