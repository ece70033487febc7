import Rekuest.Canonical
import Rekuest.Fallible.Fold
import Rekuest.HigherOrder

/-!
# Rekuest.Projection.Arguments

Where the arguments of a caller end up in the arguments of the lower implementation.

* `Lands`: the places of one argument, by the config alone.
* `Fits`: the config and the caller's arguments do not get into each other's way.
* `Determined`: the projection key by key. `Lossless`: every argument in its places, every bound
  value under its key, and nothing else.
-/

namespace Rekuest

namespace HigherOrder

open Dict (NodupKeys)

/-- The entry takes the caller's argument. -/
def Takes (spec : ProjectionSource) (key : String) : Prop :=
  spec.source = some "caller" ∧ spec.key = some key

/-- An entry of the map takes the argument. -/
def Consumed (config : HigherOrderConfig) (key : String) : Prop :=
  ∃ e ∈ config.argMap, Takes e.2 key

/-- `args_key`, where it is truthy. -/
def packKey (config : HigherOrderConfig) : Option String := config.argsKey.filter fun key => key ≠ ""

/-- A place in the arguments of the lower implementation. -/
inductive Place where
  | top (key : String)
  | packed (argsKey key : String)

def Place.get? (result : Dict Json) : Place → Option Json
  | top key => Dict.get? result key
  | packed argsKey key =>
    match Dict.get? result argsKey with
    | some (.obj members) => Dict.get? members key
    | _ => none

/-- Where an argument of the caller goes. -/
inductive Lands (config : HigherOrderConfig) (key : String) : Place → Prop
  | renamed {e : String × ProjectionSource} (he : e ∈ config.argMap) (htakes : Takes e.2 key) :
      Lands config key (.top e.1)
  | packed {argsKey : String} (hfree : ¬Consumed config key) (hpack : packKey config = some argsKey) :
      Lands config key (.packed argsKey key)
  | spread (hfree : ¬Consumed config key) (hpack : packKey config = none) :
      Lands config key (.top key)

/-- The keys under which what is not renamed goes. -/
def Rest (config : HigherOrderConfig) (caller : Dict Json) (key : String) : Prop :=
  packKey config = some key ∨
    (packKey config = none ∧ (caller.get? key).isSome = true ∧ ¬Consumed config key)

/-- The caller has what the map refers to, and no two sources write one key. -/
structure Fits (config : HigherOrderConfig) (caller : Dict Json) : Prop where
  mapKeys : NodupKeys config.argMap
  callerKeys : NodupKeys caller
  references : ∀ e ∈ config.argMap, e.2.source = some "caller" →
    ∃ key, e.2.key = some key ∧ (caller.get? key).isSome = true
  boundTargets : ∀ e ∈ config.argMap, e.2.source = some "caller" → config.bound.get? e.1 = none
  boundRest : ∀ key, Rest config caller key → config.bound.get? key = none
  targetsRest : ∀ e ∈ config.argMap, e.2.source = some "caller" → ¬Rest config caller e.1

variable {config : HigherOrderConfig} {caller caller' result result' acc : Dict Json}
  {entries : Dict ProjectionSource} {used : List String} {key key' : String} {place : Place}

/-! ## The loop over the map -/

variable (acc used) in
theorem mapArgs_total (hunique : NodupKeys entries)
    (hrefs : ∀ e ∈ entries, e.2.source = some "caller" →
      ∃ key, e.2.key = some key ∧ (caller.get? key).isSome = true) :
    ∃ acc' used', mapArgs caller entries (acc, used) = .ok (acc', used') ∧
      (∀ key, key ∈ used' ↔ key ∈ used ∨ ∃ e ∈ entries, Takes e.2 key) ∧
      (∀ e ∈ entries, ∀ key, Takes e.2 key → acc'.get? e.1 = caller.get? key) ∧
      ∀ key, (∀ e ∈ entries, e.2.source = some "caller" → e.1 ≠ key) →
        acc'.get? key = acc.get? key := by
  induction entries generalizing acc used with
  | nil => exact ⟨acc, used, rfl, by simp, by simp, by simp⟩
  | cons e entries ih =>
    obtain ⟨lowerKey, spec⟩ := e
    obtain ⟨hnew, hrest⟩ := List.nodup_cons.mp hunique
    have hrefs' := fun e he => hrefs e (List.mem_cons_of_mem (lowerKey, spec) he)
    rw [mapArgs]
    by_cases hcaller : spec.source = some "caller"
    · obtain ⟨own, hown, hthere⟩ := hrefs (lowerKey, spec) List.mem_cons_self hcaller
      obtain ⟨value, hvalue⟩ := Option.isSome_iff_exists.mp hthere
      obtain ⟨acc', used', hok, hused, htargets, hothers⟩ :=
        ih (acc.set lowerKey value) (own :: used) hrest hrefs'
      have hown' : spec.key = some own := hown
      refine ⟨acc', used', ?_, fun key => ?_, fun e he key htakes => ?_, fun key hkey => ?_⟩
      · rw [if_pos hcaller, hown']
        dsimp only
        rw [hvalue]
        exact hok
      · rw [hused]
        constructor
        · rintro (hkey | ⟨e, he, htakes⟩)
          · rcases List.mem_cons.mp hkey with hkey | hkey
            · exact .inr ⟨_, List.mem_cons_self, hcaller, by rw [hkey]; exact hown'⟩
            · exact .inl hkey
          · exact .inr ⟨e, List.mem_cons_of_mem _ he, htakes⟩
        · rintro (hkey | ⟨e, he, htakes⟩)
          · exact .inl (List.mem_cons_of_mem _ hkey)
          · rcases List.mem_cons.mp he with he | he
            · rw [he] at htakes
              have hsame : own = key := Option.some.inj (hown'.symm.trans htakes.2)
              exact .inl (by rw [hsame]; exact List.mem_cons_self)
            · exact .inr ⟨e, he, htakes⟩
      · rcases List.mem_cons.mp he with he | he
        · -- no later entry writes the key again
          have hlater : ∀ e ∈ entries, e.2.source = some "caller" → e.1 ≠ lowerKey := by
            intro e he _ hsame
            exact hnew (List.mem_map.mpr ⟨e, he, hsame⟩)
          rw [he] at htakes ⊢
          have hsame : own = key := Option.some.inj (hown'.symm.trans htakes.2)
          rw [hothers lowerKey hlater, Dict.get?_set, if_pos rfl, ← hsame, hvalue]
        · exact htargets e he key htakes
      · rw [hothers key fun e he => hkey e (List.mem_cons_of_mem _ he), Dict.get?_set, if_neg]
        exact fun hsame => hkey _ List.mem_cons_self hcaller hsame.symm
    · obtain ⟨acc', used', hok, hused, htargets, hothers⟩ :=
        ih acc used hrest hrefs'
      refine ⟨acc', used', ?_, fun key => ?_, fun e he key htakes => ?_, fun key hkey => ?_⟩
      · rw [if_neg hcaller]
        exact hok
      · rw [hused]
        refine or_congr_right ⟨?_, ?_⟩
        · rintro ⟨e, he, htakes⟩
          exact ⟨e, List.mem_cons_of_mem _ he, htakes⟩
        · rintro ⟨e, he, htakes⟩
          rcases List.mem_cons.mp he with he | he
          · rw [he] at htakes
            exact absurd htakes.1 hcaller
          · exact ⟨e, he, htakes⟩
      · rcases List.mem_cons.mp he with he | he
        · rw [he] at htakes
          exact absurd htakes.1 hcaller
        · exact htargets e he key htakes
      · exact hothers key fun e he => hkey e (List.mem_cons_of_mem _ he)

/-! ## The projection -/

/-- What the loop over the map does not consume. -/
def remaining (caller : Dict Json) (used : List String) : Dict Json :=
  caller.filter fun m => !used.contains m.1

theorem buildLowerArgs_spread {mapped : Dict Json}
    (hok : mapArgs caller config.argMap (config.bound, []) = .ok (mapped, used))
    (hpack : packKey config = none) :
    buildLowerArgs config caller = .ok (mapped.update (remaining caller used)) := by
  unfold buildLowerArgs
  rw [hok]
  cases hkey : config.argsKey with
  | none => rfl
  | some argsKey =>
    by_cases hempty : argsKey = ""
    · rw [hempty]
      rfl
    · rw [packKey, hkey, Option.filter_some, if_pos (decide_eq_true hempty)] at hpack
      cases hpack

theorem buildLowerArgs_packed {mapped : Dict Json} {argsKey : String}
    (hok : mapArgs caller config.argMap (config.bound, []) = .ok (mapped, used))
    (hpack : packKey config = some argsKey) :
    buildLowerArgs config caller = .ok (mapped.set argsKey (.obj (remaining caller used))) := by
  obtain ⟨hkey, hne⟩ := Option.filter_eq_some_iff.mp hpack
  unfold buildLowerArgs
  rw [hok, hkey]
  simp only [of_decide_eq_true hne]
  rfl

/-- The arguments of the lower implementation, key by key. -/
structure Determined (config : HigherOrderConfig) (caller result : Dict Json) : Prop where
  renamed : ∀ e ∈ config.argMap, ∀ key, Takes e.2 key → result.get? e.1 = caller.get? key
  packed : ∀ argsKey, packKey config = some argsKey → ∃ rest, result.get? argsKey = some (.obj rest) ∧
    ∀ key, (Consumed config key → Dict.get? rest key = none) ∧
      (¬Consumed config key → Dict.get? rest key = caller.get? key)
  spread : packKey config = none → ∀ key, ¬Consumed config key → (caller.get? key).isSome = true →
    result.get? key = caller.get? key
  bound : ∀ key, (∀ e ∈ config.argMap, e.2.source = some "caller" → e.1 ≠ key) →
    ¬Rest config caller key → result.get? key = config.bound.get? key

theorem determined_of_fits (h : Fits config caller) :
    ∃ result, buildLowerArgs config caller = .ok result ∧ Determined config caller result := by
  obtain ⟨mapped, used, hok, hused, htargets, hothers⟩ :=
    mapArgs_total config.bound [] h.mapKeys h.references
  have hconsumed : ∀ key, key ∈ used ↔ Consumed config key := by
    intro key
    rw [hused]
    simp [Consumed]
  have hrest : ∀ key, (Consumed config key → (remaining caller used).get? key = none) ∧
      (¬Consumed config key → (remaining caller used).get? key = caller.get? key) := by
    intro key
    rw [remaining, Dict.get?_filter (p := fun key => !used.contains key)]
    constructor
    · intro hkey
      simp [(hconsumed key).mpr hkey]
    · intro hkey
      have hnot : key ∉ used := fun hmem => hkey ((hconsumed key).mp hmem)
      simp [hnot]
  cases hpack : packKey config with
  | none =>
    -- the other arguments keep their keys
    have hget : ∀ key, (mapped.update (remaining caller used)).get? key =
        ((remaining caller used).get? key).or (mapped.get? key) :=
      fun key => Dict.get?_update h.callerKeys.filter
    have hskip : ∀ key, ¬Rest config caller key → (remaining caller used).get? key = none := by
      intro key hkey
      by_cases hc : Consumed config key
      · exact (hrest key).1 hc
      · rw [(hrest key).2 hc, ← Option.not_isSome_iff_eq_none]
        exact fun hthere => hkey (.inr ⟨hpack, hthere, hc⟩)
    refine ⟨_, buildLowerArgs_spread hok hpack, {
      renamed := fun e he key htakes => ?_
      packed := fun argsKey hsome => ?_
      spread := fun _ key hfree hthere => ?_
      bound := fun key htarget hkey => ?_ }⟩
    · rw [hget, hskip _ (h.targetsRest e he htakes.1), Option.none_or]
      exact htargets e he key htakes
    · rw [hpack] at hsome
      cases hsome
    · obtain ⟨value, hvalue⟩ := Option.isSome_iff_exists.mp hthere
      rw [hget, (hrest key).2 hfree, hvalue, Option.some_or]
    · rw [hget, hskip key hkey, Option.none_or]
      exact hothers key htarget
  | some argsKey =>
    -- they are packed under one key, which no other source writes
    refine ⟨_, buildLowerArgs_packed hok hpack, {
      renamed := fun e he key htakes => ?_
      packed := fun argsKey' hsome => ?_
      spread := fun hnone => ?_
      bound := fun key htarget hkey => ?_ }⟩
    · have hne : e.1 ≠ argsKey := by
        intro hsame
        exact h.targetsRest e he htakes.1 (.inl (by rw [hpack, hsame]))
      rw [Dict.get?_set, if_neg hne]
      exact htargets e he key htakes
    · rw [hpack] at hsome
      cases hsome
      refine ⟨_, ?_, hrest⟩
      rw [Dict.get?_set, if_pos rfl]
    · rw [hpack] at hnone
      cases hnone
    · have hne : key ≠ argsKey := fun hsame => hkey (.inl (by rw [hpack, hsame]))
      rw [Dict.get?_set, if_neg hne]
      exact hothers key htarget

/-- Every argument of the caller stands in each of its places, every bound value under its key, and
nothing else is there. -/
structure Lossless (config : HigherOrderConfig) (caller result : Dict Json) : Prop where
  landed : ∀ key value place, caller.get? key = some value → Lands config key place →
    place.get? result = some value
  somewhere : ∀ key, ∃ place, Lands config key place
  once : ∀ key, ¬Consumed config key → ∃! place, Lands config key place
  alone : ∀ key key' place, Lands config key place → Lands config key' place →
    (caller.get? key).isSome = true → (caller.get? key').isSome = true → key = key'
  bound : ∀ key value, config.bound.get? key = some value → result.get? key = some value
  only : ∀ key value, result.get? key = some value →
    config.bound.get? key = some value ∨
      (∃ own, Lands config own (.top key) ∧ caller.get? own = some value) ∨
      (packKey config = some key ∧ ∃ rest, value = .obj rest ∧ ∀ own inner,
        Dict.get? rest own = some inner →
          Lands config own (.packed key own) ∧ caller.get? own = some inner)

theorem lands_top_iff {target : String} : Lands config key (.top target) ↔
    (∃ e ∈ config.argMap, Takes e.2 key ∧ e.1 = target) ∨
      (¬Consumed config key ∧ packKey config = none ∧ target = key) := by
  constructor
  · intro h
    generalize hplace : Place.top target = place at h
    cases h with
    | renamed he htakes =>
      cases hplace
      exact .inl ⟨_, he, htakes, rfl⟩
    | packed _ _ => cases hplace
    | spread hfree hnone =>
      cases hplace
      exact .inr ⟨hfree, hnone, rfl⟩
  · rintro (⟨e, he, htakes, rfl⟩ | ⟨hfree, hnone, rfl⟩)
    · exact .renamed he htakes
    · exact .spread hfree hnone

theorem lands_packed_iff {argsKey own : String} : Lands config key (.packed argsKey own) ↔
    ¬Consumed config key ∧ packKey config = some argsKey ∧ own = key := by
  constructor
  · intro h
    cases h with
    | packed hfree hpack => exact ⟨hfree, hpack, rfl⟩
  · rintro ⟨hfree, hpack, rfl⟩
    exact .packed hfree hpack

theorem somewhere (key : String) : ∃ place, Lands config key place := by
  by_cases hc : Consumed config key
  · obtain ⟨e, he, htakes⟩ := hc
    exact ⟨_, .renamed he htakes⟩
  · cases hpack : packKey config with
    | none => exact ⟨_, .spread hc hpack⟩
    | some argsKey => exact ⟨_, .packed hc hpack⟩

theorem once (hfree : ¬Consumed config key) : ∃! place, Lands config key place := by
  cases hpack : packKey config with
  | none =>
    refine ⟨.top key, .spread hfree hpack, fun other hother => ?_⟩
    cases other with
    | top target =>
      rcases lands_top_iff.mp hother with ⟨e, he, htakes, _⟩ | ⟨_, _, htarget⟩
      · exact absurd ⟨e, he, htakes⟩ hfree
      · rw [htarget]
    | packed argsKey own =>
      rw [(lands_packed_iff.mp hother).2.1] at hpack
      cases hpack
  | some argsKey =>
    refine ⟨.packed argsKey key, .packed hfree hpack, fun other hother => ?_⟩
    cases other with
    | top target =>
      rcases lands_top_iff.mp hother with ⟨e, he, htakes, _⟩ | ⟨_, hnone, _⟩
      · exact absurd ⟨e, he, htakes⟩ hfree
      · rw [hpack] at hnone
        cases hnone
    | packed argsKey' own =>
      obtain ⟨_, hpack', hown⟩ := lands_packed_iff.mp hother
      rw [hpack] at hpack'
      rw [Option.some.inj hpack', hown]

theorem alone (h : Fits config caller) (hplace : Lands config key place)
    (hplace' : Lands config key' place) (hthere : (caller.get? key).isSome = true)
    (hthere' : (caller.get? key').isSome = true) : key = key' := by
  cases place with
  | top target =>
    rcases lands_top_iff.mp hplace with ⟨e, he, htakes, htarget⟩ | ⟨hfree, hnone, htarget⟩
    · rcases lands_top_iff.mp hplace' with ⟨e', he', htakes', htarget'⟩ | ⟨hfree', hnone, htarget'⟩
      · -- a key of the map has one entry
        have hsame : e = e' := List.inj_on_of_nodup_map h.mapKeys he he' (htarget.trans htarget'.symm)
        rw [hsame] at htakes
        exact Option.some.inj (htakes.2.symm.trans htakes'.2)
      · refine absurd (.inr ⟨hnone, ?_, ?_⟩) (h.targetsRest e he htakes.1)
        · rw [htarget, htarget']
          exact hthere'
        · rw [htarget, htarget']
          exact hfree'
    · rcases lands_top_iff.mp hplace' with ⟨e', he', htakes', htarget'⟩ | ⟨_, _, htarget'⟩
      · refine absurd (.inr ⟨hnone, ?_, ?_⟩) (h.targetsRest e' he' htakes'.1)
        · rw [htarget', htarget]
          exact hthere
        · rw [htarget', htarget]
          exact hfree
      · rw [← htarget, ← htarget']
  | packed argsKey own =>
    rw [← (lands_packed_iff.mp hplace).2.2, ← (lands_packed_iff.mp hplace').2.2]

theorem Determined.lossless (h : Determined config caller result) (hfits : Fits config caller) :
    Lossless config caller result where
  landed key value place hvalue hplace := by
    cases hplace with
    | renamed he htakes => exact (h.renamed _ he key htakes).trans hvalue
    | packed hfree hpack =>
      obtain ⟨rest, hrest, hkeys⟩ := h.packed _ hpack
      rw [Place.get?, hrest]
      exact ((hkeys key).2 hfree).trans hvalue
    | spread hfree hpack =>
      exact (h.spread hpack key hfree (by rw [hvalue]; rfl)).trans hvalue
  somewhere := somewhere
  once _ hfree := once hfree
  alone _ _ _ hplace hplace' hthere hthere' := alone hfits hplace hplace' hthere hthere'
  bound key value hvalue := by
    rw [h.bound key (fun e he hcaller hsame => ?_) fun hrest => ?_, hvalue]
    · rw [← hsame, hfits.boundTargets e he hcaller] at hvalue
      cases hvalue
    · rw [hfits.boundRest key hrest] at hvalue
      cases hvalue
  only key value hvalue := by
    by_cases htarget : ∃ e ∈ config.argMap, e.2.source = some "caller" ∧ e.1 = key
    · obtain ⟨e, he, hcaller, hkey⟩ := htarget
      obtain ⟨own, hown, _⟩ := hfits.references e he hcaller
      have hget := h.renamed e he own ⟨hcaller, hown⟩
      rw [hkey, hvalue] at hget
      exact .inr (.inl ⟨own, lands_top_iff.mpr (.inl ⟨e, he, ⟨hcaller, hown⟩, hkey⟩), hget.symm⟩)
    · by_cases hrest : Rest config caller key
      · rcases hrest with hpack | ⟨hnone, hthere, hfree⟩
        · obtain ⟨rest, hget, hkeys⟩ := h.packed key hpack
          rw [hvalue] at hget
          refine .inr (.inr ⟨hpack, rest, Option.some.inj hget, fun own inner hinner => ?_⟩)
          have hfree : ¬Consumed config own := by
            intro hc
            rw [(hkeys own).1 hc] at hinner
            cases hinner
          exact ⟨.packed hfree hpack, ((hkeys own).2 hfree).symm.trans hinner⟩
        · have hget := h.spread hnone key hfree hthere
          exact .inr (.inl ⟨key, .spread hfree hnone, hget.symm.trans hvalue⟩)
      · left
        rw [← h.bound key (fun e he hcaller hkey => htarget ⟨e, he, hcaller, hkey⟩) hrest]
        exact hvalue

/-! ## Two callers -/

/-- Equal dictionaries: the same keys, with equal values. -/
def SameDict (d d' : Dict Json) : Prop := ∀ key, Option.Rel Json.Same (d.get? key) (d'.get? key)

/-- No other source writes a key that some fitting arguments keep: it stands for the argument or
for none. -/
theorem Determined.keeps (h : Determined config caller result) (hfits' : Fits config caller')
    (hpack : packKey config = none) (hfree : ¬Consumed config key)
    (hthere' : (caller'.get? key).isSome = true) : result.get? key = caller.get? key := by
  by_cases hthere : (caller.get? key).isSome = true
  · exact h.spread hpack key hfree hthere
  · have hrest' : Rest config caller' key := .inr ⟨hpack, hthere', hfree⟩
    have hrest : ¬Rest config caller key := by
      rintro (hsome | ⟨_, hthere'', _⟩)
      · rw [hpack] at hsome
        cases hsome
      · exact hthere hthere''
    rw [h.bound key (fun e he hcaller hsame => hfits'.targetsRest e he hcaller (hsame ▸ hrest')) hrest,
      hfits'.boundRest key hrest', Option.not_isSome_iff_eq_none.mp hthere]

theorem Determined.same (h : Determined config caller result) (h' : Determined config caller' result')
    (hfits : Fits config caller) (hfits' : Fits config caller') (hsame : SameDict result result') :
    SameDict caller caller' := by
  intro key
  by_cases hc : Consumed config key
  · obtain ⟨e, he, htakes⟩ := hc
    have hrel := hsame e.1
    rw [h.renamed e he key htakes, h'.renamed e he key htakes] at hrel
    exact hrel
  · cases hpack : packKey config with
    | some argsKey =>
      obtain ⟨rest, hrest, hkeys⟩ := h.packed argsKey hpack
      obtain ⟨rest', hrest', hkeys'⟩ := h'.packed argsKey hpack
      have hrel := hsame argsKey
      rw [hrest, hrest'] at hrel
      cases hrel with
      | some hobj =>
        cases hobj with
        | obj hmembers =>
          have hmember := hmembers key
          rw [(hkeys key).2 hc, (hkeys' key).2 hc] at hmember
          exact hmember
    | none =>
      have hrel := hsame key
      by_cases hthere : (caller.get? key).isSome = true
      · rw [h.keeps hfits hpack hc hthere, h'.keeps hfits hpack hc hthere] at hrel
        exact hrel
      · by_cases hthere' : (caller'.get? key).isSome = true
        · rw [h.keeps hfits' hpack hc hthere', h'.keeps hfits' hpack hc hthere'] at hrel
          exact hrel
        · rw [Option.not_isSome_iff_eq_none.mp hthere, Option.not_isSome_iff_eq_none.mp hthere']
          exact .none

/-- The projection loses nothing: every argument of the caller stands where the config puts it, and
different arguments are projected to different ones. -/
theorem lower_args_lossless (h : Fits config caller) :
    (∃ result, buildLowerArgs config caller = .ok result ∧ Lossless config caller result) ∧
      ∀ caller' result result', Fits config caller' →
        buildLowerArgs config caller = .ok result → buildLowerArgs config caller' = .ok result' →
        SameDict result result' → SameDict caller caller' := by
  obtain ⟨result, hresult, hdetermined⟩ := determined_of_fits h
  refine ⟨⟨result, hresult, hdetermined.lossless h⟩, fun caller' r r' h' hr hr' hsame => ?_⟩
  obtain ⟨result', hresult', hdetermined'⟩ := determined_of_fits h'
  rw [hresult] at hr
  rw [hresult'] at hr'
  cases hr
  cases hr'
  exact hdetermined.same hdetermined' h h' hsame

/-- A bound model, an image that is renamed, and the other arguments in one dictionary. -/
def inference : HigherOrderConfig where
  bound := [("model", .str "resnet50")]
  argsKey := some "args"
  argMap := [("input_image", { source := some "caller", key := some "image" })]

theorem inference_lossless : ∃ result,
    buildLowerArgs inference [("image", .num 1), ("threshold", .num 5)] = .ok result ∧
      Lossless inference [("image", .num 1), ("threshold", .num 5)] result := by
  have hpack : packKey inference = some "args" := rfl
  have hrest : ∀ caller key, Rest inference caller key → key = "args" := by
    rintro caller key (hkey | ⟨hnone, _⟩)
    · exact (Option.some.inj (hpack.symm.trans hkey)).symm
    · rw [hpack] at hnone
      cases hnone
  refine (lower_args_lossless {
    mapKeys := by simp [NodupKeys, inference]
    callerKeys := by simp [NodupKeys]
    references := fun e he _ => ?_
    boundTargets := fun e he _ => ?_
    boundRest := fun key hkey => ?_
    targetsRest := fun e he _ hkey => ?_ }).1
  · rw [List.mem_singleton.mp he]
    exact ⟨"image", rfl, rfl⟩
  · rw [List.mem_singleton.mp he]
    rfl
  · rw [hrest _ _ hkey]
    rfl
  · rw [List.mem_singleton.mp he] at hkey
    have hargs := hrest _ _ hkey
    revert hargs
    decide

end HigherOrder
end Rekuest
