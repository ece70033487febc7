import Rekuest.Fallible.Fold
import Rekuest.HigherOrder

/-!
# Rekuest.Projection.Coverage

What the check of a projection's dependencies accepts, and what the projection then does.

* `Accepted`: the check, in terms of the entries of the map.
* `Sourced`: an entry that the projection can follow. The check does not ask for it.
* `Provides`: every dependency of the lower implementation has a value, from where the map says.
-/

namespace Rekuest
namespace HigherOrder

open Fallible

variable {config : HigherOrderConfig} {keys lower declared sources : List String}
  {test : String → Bool} {message : String → String} {resolved acc result : Dict Json}
  {entries : Dict ProjectionSource} {key : String} {value : Json}

/-! ## The check -/

theorem checkKeys_ok_iff : checkKeys keys test message = .ok () ↔ ∀ key ∈ keys, test key = true := by
  unfold checkKeys
  split
  · rename_i bad hbad
    have hmem := List.mem_of_find?_eq_some hbad
    have hfails := List.find?_some hbad
    simp only [Bool.not_eq_true'] at hfails
    constructor
    · intro h
      cases h
    · intro h
      rw [h bad hmem] at hfails
      cases hfails
  · rename_i hnone
    simp only [List.find?_eq_none, Bool.not_eq_true, Bool.not_eq_false'] at hnone
    exact iff_of_true rfl hnone

/-- What the check accepts. -/
structure Accepted (config : HigherOrderConfig) (lower declared : List String) : Prop where
  sources : ∀ e ∈ config.dependencyMap, e.2.source = some "caller" →
    ∃ key, e.2.key = some key ∧ key ∈ declared
  passed : config.dependencyMap = [] → ∀ key ∈ lower, key ∈ declared
  mapped : config.dependencyMap ≠ [] → ∀ key ∈ lower, ∃ spec, (key, spec) ∈ config.dependencyMap

theorem requiredSources_ok_iff : requiredLowerDependencySources config = .ok sources ↔
    List.Forall₂ (fun e key => e.2.key = some key)
      (config.dependencyMap.filter fun e => e.2.source = some "caller") sources := by
  unfold requiredLowerDependencySources
  rw [mapM_ok_iff]
  constructor
  · intro h
    refine h.imp fun e key he => ?_
    cases hkey : e.2.key with
    | none =>
      rw [hkey] at he
      cases he
    | some other =>
      rw [hkey] at he
      cases he
      rfl
  · intro h
    refine h.imp fun e key hkey => ?_
    rw [hkey]

theorem get?_isSome_iff {d : Dict ProjectionSource} :
    (d.get? key).isSome = true ↔ ∃ spec, (key, spec) ∈ d := by
  induction d with
  | nil => simp [Dict.get?]
  | cons e d ih =>
    rw [Dict.get?_cons]
    split
    · rename_i hkey
      exact iff_of_true rfl ⟨e.2, by rw [hkey]; exact List.mem_cons_self⟩
    · rename_i hkey
      rw [ih]
      constructor
      · rintro ⟨spec, hspec⟩
        exact ⟨spec, List.mem_cons_of_mem _ hspec⟩
      · rintro ⟨spec, hspec⟩
        rcases List.mem_cons.mp hspec with hsame | hspec
        · exact absurd (congrArg Prod.fst hsame) hkey
        · exact ⟨spec, hspec⟩

/-- The loop over the sources finds all of them declared. -/
theorem sources_declared_iff :
    (∃ sources, requiredLowerDependencySources config = .ok sources ∧
      ∀ key ∈ sources, key ∈ declared) ↔
    ∀ e ∈ config.dependencyMap, e.2.source = some "caller" →
      ∃ key, e.2.key = some key ∧ key ∈ declared := by
  simp only [requiredSources_ok_iff]
  have hfilter : (∀ e ∈ config.dependencyMap, e.2.source = some "caller" →
      ∃ key, e.2.key = some key ∧ key ∈ declared) ↔
      ∀ e ∈ config.dependencyMap.filter fun e => e.2.source = some "caller",
        ∃ key, e.2.key = some key ∧ key ∈ declared := by
    simp only [List.mem_filter, decide_eq_true_eq, and_imp]
  rw [hfilter]
  generalize (config.dependencyMap.filter fun e => e.2.source = some "caller") = callers
  constructor
  · rintro ⟨sources, hall, hdeclared⟩
    induction hall with
    | nil => simp
    | cons hkey _ ih =>
      intro e he
      rcases List.mem_cons.mp he with he | he
      · rw [he]
        exact ⟨_, hkey, hdeclared _ List.mem_cons_self⟩
      · exact ih (fun key hmem => hdeclared key (List.mem_cons_of_mem _ hmem)) e he
  · intro h
    induction callers with
    | nil => exact ⟨[], .nil, by simp⟩
    | cons e callers ih =>
      obtain ⟨key, hkey, hmem⟩ := h e List.mem_cons_self
      obtain ⟨sources, hall, hdeclared⟩ := ih fun e he => h e (List.mem_cons_of_mem _ he)
      refine ⟨key :: sources, .cons hkey hall, fun other hother => ?_⟩
      rcases List.mem_cons.mp hother with hother | hother
      · rw [hother]
        exact hmem
      · exact hdeclared other hother

theorem validateDependencyCoverage_ok_iff :
    validateDependencyCoverage config lower declared = .ok () ↔ Accepted config lower declared := by
  constructor
  · intro h
    obtain ⟨sources, hsources, h⟩ := bind_ok_iff.mp h
    obtain ⟨_, hdeclared, h⟩ := bind_ok_iff.mp h
    rw [checkKeys_ok_iff] at hdeclared
    refine ⟨sources_declared_iff.mp ⟨sources, hsources, fun key hkey => ?_⟩, ?_, ?_⟩
    · exact List.contains_iff_mem.mp (hdeclared key hkey)
    · intro hmap key hkey
      rw [if_pos hmap, checkKeys_ok_iff] at h
      exact List.contains_iff_mem.mp (h key hkey)
    · intro hmap key hkey
      rw [if_neg hmap, checkKeys_ok_iff] at h
      exact get?_isSome_iff.mp (h key hkey)
  · intro h
    obtain ⟨sources, hsources, hdeclared⟩ := sources_declared_iff.mpr h.sources
    refine bind_ok_iff.mpr ⟨sources, hsources, bind_ok_iff.mpr ⟨(), ?_, ?_⟩⟩
    · exact checkKeys_ok_iff.mpr fun key hkey => List.contains_iff_mem.mpr (hdeclared key hkey)
    · split
      · rename_i hmap
        exact checkKeys_ok_iff.mpr fun key hkey => List.contains_iff_mem.mpr (h.passed hmap key hkey)
      · rename_i hmap
        exact checkKeys_ok_iff.mpr fun key hkey => get?_isSome_iff.mpr (h.mapped hmap key hkey)

/-- An entry that the projection can follow. -/
def Sourced (spec : ProjectionSource) : Prop :=
  spec.source = some "bound" ∨ spec.source = some "caller"

/-- The check passes, and the map sources every lower key as the projection can follow. -/
structure Covers (config : HigherOrderConfig) (lower declared : List String) : Prop where
  accepted : Accepted config lower declared
  sourced : ∀ key ∈ lower, ∀ spec, (key, spec) ∈ config.dependencyMap → Sourced spec

/-- What covers two lists of keys covers every list of keys of theirs, also where more is
declared. -/
theorem Covers.of_subset {lower' other declared' : List String} (h : Covers config lower declared)
    (h' : Covers config other declared) (hkeys : ∀ key ∈ lower', key ∈ lower ∨ key ∈ other)
    (hdeclared : ∀ key ∈ declared, key ∈ declared') : Covers config lower' declared' where
  accepted := {
    sources := fun e he hcaller => by
      obtain ⟨key, hkey, hmem⟩ := h.accepted.sources e he hcaller
      exact ⟨key, hkey, hdeclared key hmem⟩
    passed := fun hmap key hkey => by
      rcases hkeys key hkey with hkey | hkey
      · exact hdeclared key (h.accepted.passed hmap key hkey)
      · exact hdeclared key (h'.accepted.passed hmap key hkey)
    mapped := fun hmap key hkey => by
      rcases hkeys key hkey with hkey | hkey
      · exact h.accepted.mapped hmap key hkey
      · exact h'.accepted.mapped hmap key hkey }
  sourced := fun key hkey => by
    rcases hkeys key hkey with hkey | hkey
    · exact h.sourced key hkey
    · exact h'.sourced key hkey

theorem Covers.mono {lower' declared' : List String} (h : Covers config lower declared)
    (hkeys : ∀ key ∈ lower', key ∈ lower) (hdeclared : ∀ key ∈ declared, key ∈ declared') :
    Covers config lower' declared' :=
  h.of_subset h (fun key hkey => .inl (hkeys key hkey)) hdeclared

/-! ## The projection -/

/-- Where the value of a lower key comes from: its own key where there is no map, and else an entry
of the map for it, which is bound to the value or names the dependency that has it. -/
def Origin (config : HigherOrderConfig) (resolved : Dict Json) (key : String) (value : Json) : Prop :=
  (config.dependencyMap = [] ∧ resolved.get? key = some value) ∨
    ∃ spec, (key, spec) ∈ config.dependencyMap ∧
      ((spec.source = some "bound" ∧ value = spec.value.getD .null) ∨
        (spec.source = some "caller" ∧ ∃ named, spec.key = some named ∧
          resolved.get? named = some value))

/-- Every dependency of the lower implementation has a value, from where the config says. -/
def Provides (config : HigherOrderConfig) (lower : List String) (resolved result : Dict Json) : Prop :=
  ∀ key ∈ lower, ∃ value, result.get? key = some value ∧ Origin config resolved key value

/-- What an entry puts under its key. -/
def EntryValue (resolved : Dict Json) (spec : ProjectionSource) (value : Json) : Prop :=
  (spec.source = some "bound" ∧ value = spec.value.getD .null) ∨
    (spec.source = some "caller" ∧ ∃ named, spec.key = some named ∧ resolved.get? named = some value)

/-- The loop passes an entry where it can be followed, and then writes its value. -/
theorem mapDependencies_cons {e : String × ProjectionSource} :
    mapDependencies resolved (e :: entries) acc = .ok result ↔
      ∃ value, EntryValue resolved e.2 value ∧
        mapDependencies resolved entries (acc.set e.1 value) = .ok result := by
  obtain ⟨lowerKey, spec⟩ := e
  rw [mapDependencies]
  unfold EntryValue
  by_cases hbound : spec.source = some "bound"
  · simp [hbound]
  · by_cases hcaller : spec.source = some "caller"
    · cases hkey : spec.key with
      | none => simp [hcaller]
      | some named =>
        cases hvalue : resolved.get? named with
        | none => simp [hcaller, hvalue]
        | some value => simp [hcaller, hvalue]
    · simp [hbound, hcaller]

/-- The loop ends where every entry can be followed. -/
theorem mapDependencies_total (h : ∀ e ∈ entries, ∃ value, EntryValue resolved e.2 value)
    (acc : Dict Json) : ∃ result, mapDependencies resolved entries acc = .ok result := by
  induction entries generalizing acc with
  | nil => exact ⟨acc, rfl⟩
  | cons e entries ih =>
    obtain ⟨value, hvalue⟩ := h e List.mem_cons_self
    obtain ⟨result, hresult⟩ := ih (fun e he => h e (List.mem_cons_of_mem _ he)) (acc.set e.1 value)
    exact ⟨result, mapDependencies_cons.mpr ⟨value, hvalue, hresult⟩⟩

/-- What the loop leaves under a key was there before, or is the value of an entry for it. -/
theorem mapDependencies_get? (h : mapDependencies resolved entries acc = .ok result) :
    (∀ e ∈ entries, ∃ value, EntryValue resolved e.2 value) ∧
      (∀ key, (acc.get? key).isSome = true ∨ (∃ spec, (key, spec) ∈ entries) →
        ∃ value, result.get? key = some value ∧ (acc.get? key = some value ∨
          ∃ spec, (key, spec) ∈ entries ∧ EntryValue resolved spec value)) := by
  induction entries generalizing acc with
  | nil =>
    cases h
    refine ⟨by simp, fun key hkey => ?_⟩
    rcases hkey with hkey | ⟨spec, hspec⟩
    · obtain ⟨value, hvalue⟩ := Option.isSome_iff_exists.mp hkey
      exact ⟨value, hvalue, .inl hvalue⟩
    · cases hspec
  | cons e entries ih =>
    obtain ⟨own, hown, hrest⟩ := mapDependencies_cons.mp h
    obtain ⟨hall, hget⟩ := ih hrest
    constructor
    · intro e' he'
      rcases List.mem_cons.mp he' with he' | he'
      · rw [he']
        exact ⟨own, hown⟩
      · exact hall e' he'
    · intro key hkey
      have hthere : ((acc.set e.1 own).get? key).isSome = true ∨ ∃ spec, (key, spec) ∈ entries := by
        rw [Dict.get?_set]
        by_cases hsame : key = e.1
        · left
          rw [if_pos hsame]
          rfl
        · rw [if_neg hsame]
          rcases hkey with hkey | ⟨spec, hspec⟩
          · exact .inl hkey
          · rcases List.mem_cons.mp hspec with hspec | hspec
            · exact absurd (congrArg Prod.fst hspec) hsame
            · exact .inr ⟨spec, hspec⟩
      obtain ⟨value, hvalue, horigin⟩ := hget key hthere
      refine ⟨value, hvalue, ?_⟩
      rcases horigin with hold | ⟨spec, hspec, hentry⟩
      · rw [Dict.get?_set] at hold
        split at hold
        · rename_i hsame
          cases hold
          exact .inr ⟨e.2, by rw [hsame]; exact List.mem_cons_self, hown⟩
        · exact .inl hold
      · exact .inr ⟨spec, List.mem_cons_of_mem _ hspec, hentry⟩

theorem EntryValue.sourced {spec : ProjectionSource} (h : EntryValue resolved spec value) :
    Sourced spec := by
  rcases h with ⟨hbound, _⟩ | ⟨hcaller, _⟩
  · exact .inl hbound
  · exact .inr hcaller

/-- The dictionary has the declared keys. -/
def Resolves (declared : List String) (resolved : Dict Json) : Prop :=
  ∀ key, (resolved.get? key).isSome = true ↔ key ∈ declared

theorem provides_of_accepted (h : Accepted config lower declared) (hresolved : Resolves declared resolved)
    (hsourced : ∀ e ∈ config.dependencyMap, Sourced e.2) :
    ∃ result, buildLowerDependencies config resolved = .ok result ∧
      Provides config lower resolved result := by
  unfold buildLowerDependencies
  by_cases hmap : config.dependencyMap = []
  · rw [if_pos hmap]
    refine ⟨resolved, rfl, fun key hkey => ?_⟩
    obtain ⟨value, hvalue⟩ := Option.isSome_iff_exists.mp
      ((hresolved key).mpr (h.passed hmap key hkey))
    exact ⟨value, hvalue, .inl ⟨hmap, hvalue⟩⟩
  · rw [if_neg hmap]
    have hentries : ∀ e ∈ config.dependencyMap, ∃ value, EntryValue resolved e.2 value := by
      intro e he
      rcases hsourced e he with hbound | hcaller
      · exact ⟨_, .inl ⟨hbound, rfl⟩⟩
      · obtain ⟨named, hnamed, hmem⟩ := h.sources e he hcaller
        obtain ⟨value, hvalue⟩ := Option.isSome_iff_exists.mp ((hresolved named).mpr hmem)
        exact ⟨value, .inr ⟨hcaller, named, hnamed, hvalue⟩⟩
    obtain ⟨result, hresult⟩ := mapDependencies_total hentries []
    refine ⟨result, hresult, fun key hkey => ?_⟩
    obtain ⟨value, hvalue, horigin⟩ := (mapDependencies_get? hresult).2 key
      (.inr (h.mapped hmap key hkey))
    rcases horigin with hold | horigin
    · cases hold
    · exact ⟨value, hvalue, .inr horigin⟩

/-- A dictionary with the declared keys. -/
theorem resolves_nulls : Resolves declared (declared.map fun key => (key, Json.null)) := by
  intro key
  induction declared with
  | nil => simp [Dict.get?]
  | cons other declared ih =>
    rw [List.map_cons, Dict.get?_cons]
    by_cases hkey : key = other
    · simp [hkey]
    · simp [hkey, ih]

/-- An accepted config projects every dictionary of the declared dependencies if and only if each
entry of its map is `bound` or from the `caller`. -/
theorem accepted_projects_iff (h : validateDependencyCoverage config lower declared = .ok ()) :
    (∀ resolved, Resolves declared resolved → ∃ result,
      buildLowerDependencies config resolved = .ok result ∧ Provides config lower resolved result) ↔
    ∀ e ∈ config.dependencyMap, Sourced e.2 := by
  constructor
  · intro hall e he
    obtain ⟨result, hresult, _⟩ := hall _ resolves_nulls
    unfold buildLowerDependencies at hresult
    have hmap : config.dependencyMap ≠ [] := List.ne_nil_of_mem he
    rw [if_neg hmap] at hresult
    obtain ⟨value, hvalue⟩ := (mapDependencies_get? hresult).1 e he
    exact hvalue.sourced
  · intro hsourced resolved hresolved
    exact provides_of_accepted (validateDependencyCoverage_ok_iff.mp h) hresolved hsourced

/-- A renderer from the caller's `gpu`, and a store that is bound. -/
def renderer : HigherOrderConfig where
  dependencyMap := [("renderer", { source := some "caller", key := some "gpu" }),
    ("store", { source := some "bound", value := some (.arr []) })]

theorem renderer_projects : ∃ result,
    buildLowerDependencies renderer [("gpu", .arr [])] = .ok result ∧
      Provides renderer ["renderer", "store"] [("gpu", .arr [])] result := by
  have hresolved : Resolves ["gpu"] [("gpu", .arr [])] := by
    intro key
    by_cases hkey : key = "gpu" <;> simp [Dict.get?, hkey]
  refine (accepted_projects_iff rfl).mpr (fun e he => ?_) _ hresolved
  simp only [renderer, List.mem_cons, List.not_mem_nil, or_false] at he
  rcases he with rfl | rfl
  · exact .inr rfl
  · exact .inl rfl

/-- The check accepts an entry with a source that the projection refuses. -/
theorem nonsense_accepted :
    validateDependencyCoverage { dependencyMap := [("renderer", { source := some "nonsense" })] }
      ["renderer"] [] = .ok () ∧ Resolves [] [] ∧
    ¬∃ result, buildLowerDependencies
      { dependencyMap := [("renderer", { source := some "nonsense" })] } [] = .ok result := by
  refine ⟨rfl, fun key => by simp [Dict.get?], fun h => ?_⟩
  obtain ⟨result, hresult⟩ := h
  cases hresult

end HigherOrder
end Rekuest
