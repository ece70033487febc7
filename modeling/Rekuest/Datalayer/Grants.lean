import Rekuest.Coding.Glob
import Rekuest.Datalayer
import Rekuest.Fallible.Fold

/-!
# Rekuest.Datalayer.Grants

The credentials that are issued for one store do not reach another.

* `Policy.Covers`, `Policy.Lists`: an object, or a listing prefix, that a pattern of the policy fits.
* `Inside`: what belongs to a store: its object, and what is below it where it is a prefix.
* `prefix_of_covers`, `prefix_of_lists`: what a policy covers begins with the object key of its store.
* `grants_do_not_overlap`: so it covers its own store, and nothing of another one with another key.
-/

namespace Rekuest
namespace Datalayer

open Coding Fallible

/-! ## What a policy covers -/

/-- A resource of the policy fits the object. -/
def Policy.Covers (policy : Policy) (bucketName key : String) : Prop :=
  ∃ s ∈ policy.statement, ∃ resource ∈ s.resource,
    fits resource.toList (objectArn bucketName key).toList = true

/-- A condition of the policy fits the prefix. -/
def Policy.Lists (policy : Policy) (key : String) : Prop :=
  ∃ s ∈ policy.statement, ∃ patterns, s.condition = some patterns ∧
    ∃ pattern ∈ patterns, fits pattern.toList key.toList = true

/-- The object of a store, and for a prefix store what is below it. -/
def Inside (bucketKey : BucketKey) (fullKey key : String) : Prop :=
  key = fullKey ∨ bucketKey = .zarr ∧ ∃ rest, key = fullKey ++ "/" ++ rest

/-- `uuid.uuid4().hex`. -/
def IsKey (key : String) : Prop :=
  key.toList.length = 32 ∧ ∀ c ∈ key.toList, c ∈ "0123456789abcdef".toList

instance (key : String) : Decidable (IsKey key) :=
  have : Decidable (∀ c ∈ key.toList, c ∈ "0123456789abcdef".toList) :=
    List.decidableBAll _ key.toList
  inferInstanceAs (Decidable (_ ∧ _))

/-- The bucket has no separator in its name, and no pattern characters are in the configuration. -/
structure BucketConfig.Proper (conf : BucketConfig) : Prop where
  bucket : Plain conf.bucket.toList
  separator : '/' ∉ conf.bucket.toList
  subpath : ∀ subpath, conf.subpath = some subpath → Plain subpath.toList

variable {config : DatalayerConfig} {bucketKey : BucketKey} {conf : BucketConfig}
  {key key' full full' action : String} {policy : Policy}

/-! ## Keys -/

/-- What stands before the key of a store. -/
def BucketConfig.base (conf : BucketConfig) : String :=
  match conf.subpath with
  | some subpath => if subpath = "" then "" else rstripSlash subpath ++ "/"
  | none => ""

theorem IsKey.plain (h : IsKey key) : Plain key.toList := by
  have hall : Plain "0123456789abcdef".toList := by decide
  intro c hc
  exact hall c (h.2 c hc)

theorem IsKey.noSlash (h : IsKey key) : '/' ∉ key.toList := by
  intro hmem
  exact absurd (h.2 '/' hmem) (by decide)

theorem lstripSlash_key (h : IsKey key) : lstripSlash key = key := by
  have hdrop : key.toList.dropWhile (· = '/') = key.toList := by
    cases hlist : key.toList with
    | nil => rfl
    | cons c cs =>
      have hc : c ≠ '/' := by
        rintro rfl
        exact h.noSlash (by simp [hlist])
      simp [hc]
  rw [lstripSlash, hdrop, String.ofList_toList]

/-- A key has no slash at its end, wherever it stands. -/
theorem rstripSlash_key {base : String} (h : IsKey key) : rstripSlash (base ++ key) = base ++ key := by
  have hne : key.toList ≠ [] := by
    intro hnil
    have hlength := h.1
    rw [hnil] at hlength
    cases hlength
  have hlast : (base ++ key).toList.rdropWhile (· = '/') = (base ++ key).toList := by
    rw [String.toList_append]
    refine List.rdropWhile_eq_self_iff.mpr fun hall => ?_
    rw [List.getLast_append_of_ne_nil _ hne]
    intro hslash
    have heq : key.toList.getLast hne = '/' := by simpa using hslash
    exact h.noSlash (heq ▸ List.getLast_mem hne)
  rw [rstripSlash, hlast, String.ofList_toList]

theorem buildObjectKey_key (hconf : getBucketConfig config bucketKey = .ok conf) (h : IsKey key) :
    buildObjectKey config bucketKey key = .ok (conf.base ++ key) := by
  refine (bind_ok hconf).trans ?_
  rw [BucketConfig.base, lstripSlash_key h]
  cases conf.subpath with
  | none => exact congrArg Except.ok (String.empty_append).symm
  | some subpath =>
    by_cases hempty : subpath = ""
    · simp only [if_pos hempty]
      exact congrArg Except.ok (String.empty_append).symm
    · simp only [if_neg hempty]
      rfl

theorem plain_base (h : conf.Proper) : Plain conf.base.toList := by
  have hempty : Plain "".toList := by
    intro c hc
    cases hc
  unfold BucketConfig.base
  split
  · rename_i subpath hsubpath
    split
    · exact hempty
    · have hstrip : Plain (rstripSlash subpath).toList := by
        intro c hc
        rw [rstripSlash, String.toList_ofList] at hc
        exact h.subpath subpath hsubpath c ((List.rdropWhile_prefix _ _).subset hc)
      rw [String.toList_append]
      refine hstrip.append ?_
      intro c hc
      obtain rfl := List.mem_singleton.mp hc
      decide
  · exact hempty

theorem plain_full (h : conf.Proper) (hkey : IsKey key) : Plain (conf.base ++ key).toList := by
  rw [String.toList_append]
  exact (plain_base h).append hkey.plain

/-! ## Policies -/

/-- The statements of an issued policy. -/
theorem buildPolicy_ok {bucketName : String} (hconf : getBucketConfig config bucketKey = .ok conf)
    (hkey : IsKey key) (h : buildPolicy config bucketKey key bucketName action = .ok policy) :
    ∃ actions, actionMap bucketKey action = .ok actions ∧
      policy.statement =
        if bucketKey = .zarr then
          [{ action := actions
             resource := [objectArn bucketName (conf.base ++ key),
               objectArn bucketName (conf.base ++ key ++ "/*")] },
           { action := ["s3:ListBucket"]
             resource := [bucketArn bucketName]
             condition := some [conf.base ++ key, conf.base ++ key ++ "/*"] }]
        else
          [{ action := actions, resource := [objectArn bucketName (conf.base ++ key)] }] := by
  obtain ⟨answer, hanswer, h⟩ := bind_ok_iff.mp h
  obtain ⟨full, hfull, hanswer⟩ := bind_ok_iff.mp hanswer
  cases hfull.symm.trans (buildObjectKey_key hconf hkey)
  by_cases hzarr : bucketKey = .zarr
  · subst hzarr
    cases hanswer
    obtain ⟨actions, hactions, h⟩ := bind_ok_iff.mp h
    cases h
    refine ⟨actions, hactions, ?_⟩
    simp [rstripSlash_key hkey]
  · have hone : answer = (conf.base ++ key, [conf.base ++ key], false) := by
      cases bucketKey with
      | zarr => exact absurd rfl hzarr
      | bigfile => cases hanswer; rfl
      | media => cases hanswer; rfl
      | parquet => cases hanswer; rfl
    subst hone
    obtain ⟨actions, hactions, h⟩ := bind_ok_iff.mp h
    cases h
    exact ⟨actions, hactions, by simp [hzarr]⟩

theorem toList_objectArn (bucketName key : String) : (objectArn bucketName key).toList =
    ("arn:aws:s3:::".toList ++ bucketName.toList ++ ['/']) ++ key.toList := by
  simp [objectArn, bucketArn]

theorem plain_arn {bucketName : String} (h : Plain bucketName.toList) :
    Plain ("arn:aws:s3:::".toList ++ bucketName.toList ++ ['/']) := by
  have hmark : Plain "arn:aws:s3:::".toList := by decide
  refine (hmark.append h).append ?_
  intro c hc
  obtain rfl := List.mem_singleton.mp hc
  decide

theorem plain_objectArn {bucketName : String} (h : Plain bucketName.toList) {name : String}
    (hname : Plain name.toList) : Plain (objectArn bucketName name).toList := by
  rw [toList_objectArn]
  exact (plain_arn h).append hname

/-- A pattern for what is below a name fits only what begins with the name. -/
theorem prefix_of_below {name : List Char} {text : List Char} (hname : Plain name)
    (h : fits (name ++ "/*".toList) text = true) : name <+: text := by
  obtain ⟨r, rfl, _⟩ := (fits_append hname).mp h
  exact List.prefix_append name r

/-- What is below a name. -/
theorem fits_below {name rest : List Char} (hname : Plain name) :
    fits (name ++ "/*".toList) (name ++ '/' :: rest) = true := by
  have hslash : Plain (name ++ ['/']) := by
    refine hname.append ?_
    intro c hc
    obtain rfl := List.mem_singleton.mp hc
    decide
  have hstar : name ++ "/*".toList = name ++ ['/'] ++ ['*'] := by simp
  rw [hstar, fits_star hslash]
  exact ⟨rest, by simp⟩

section

variable (hconf : getBucketConfig config bucketKey = .ok conf) (hproper : conf.Proper)
  (hkey : IsKey key) (hpolicy : buildPolicy config bucketKey key conf.bucket action = .ok policy)

include hconf hproper hkey hpolicy

/-- An object that the policy covers begins with the object key of the store. -/
theorem prefix_of_covers {name : String} (h : policy.Covers conf.bucket name) :
    (conf.base ++ key).toList <+: name.toList := by
  obtain ⟨s, hs, resource, hresource, hfits⟩ := h
  obtain ⟨actions, _, hstatements⟩ := buildPolicy_ok hconf hkey hpolicy
  have hfull := plain_full hproper hkey
  have hexact : fits (objectArn conf.bucket (conf.base ++ key)).toList
      (objectArn conf.bucket name).toList = true → (conf.base ++ key).toList <+: name.toList := by
    intro hfits
    have heq := (fits_plain (plain_objectArn hproper.bucket hfull)).mp hfits
    rw [toList_objectArn, toList_objectArn] at heq
    rw [List.append_cancel_left heq]
  have hbelow : fits (objectArn conf.bucket (conf.base ++ key ++ "/*")).toList
      (objectArn conf.bucket name).toList = true → (conf.base ++ key).toList <+: name.toList := by
    intro hfits
    have hpattern : (objectArn conf.bucket (conf.base ++ key ++ "/*")).toList =
        (objectArn conf.bucket (conf.base ++ key)).toList ++ "/*".toList := by
      simp [toList_objectArn]
    rw [hpattern] at hfits
    have hprefix := prefix_of_below (plain_objectArn hproper.bucket hfull) hfits
    rw [toList_objectArn, toList_objectArn] at hprefix
    exact (List.prefix_append_right_inj _).mp hprefix
  have hbucket : fits (bucketArn conf.bucket).toList (objectArn conf.bucket name).toList = true →
      (conf.base ++ key).toList <+: name.toList := by
    intro hfits
    have hplain : Plain (bucketArn conf.bucket).toList := by
      intro c hc
      refine plain_arn hproper.bucket c ?_
      rw [bucketArn, String.toList_append] at hc
      exact List.mem_append_left _ hc
    have heq := (fits_plain hplain).mp hfits
    have hlength := congrArg List.length heq
    rw [objectArn, String.toList_append, String.toList_append] at hlength
    simp at hlength
  rw [hstatements] at hs
  split at hs
  · simp only [List.mem_cons, List.not_mem_nil, or_false] at hs
    rcases hs with rfl | rfl
    · simp only [List.mem_cons, List.not_mem_nil, or_false] at hresource
      rcases hresource with rfl | rfl
      · exact hexact hfits
      · exact hbelow hfits
    · obtain rfl := List.mem_singleton.mp hresource
      exact hbucket hfits
  · obtain rfl := List.mem_singleton.mp hs
    obtain rfl := List.mem_singleton.mp hresource
    exact hexact hfits

/-- And so does a prefix that it lets list. -/
theorem prefix_of_lists {name : String} (h : policy.Lists name) :
    (conf.base ++ key).toList <+: name.toList := by
  obtain ⟨s, hs, patterns, hpatterns, pattern, hpattern, hfits⟩ := h
  obtain ⟨actions, _, hstatements⟩ := buildPolicy_ok hconf hkey hpolicy
  have hfull := plain_full hproper hkey
  rw [hstatements] at hs
  split at hs
  · simp only [List.mem_cons, List.not_mem_nil, or_false] at hs
    rcases hs with rfl | rfl
    · cases hpatterns
    · cases hpatterns
      simp only [List.mem_cons, List.not_mem_nil, or_false] at hpattern
      rcases hpattern with rfl | rfl
      · rw [(fits_plain hfull).mp hfits]
      · rw [String.toList_append] at hfits
        exact prefix_of_below hfull hfits
  · obtain rfl := List.mem_singleton.mp hs
    cases hpatterns

/-- The policy covers what is inside of its store. -/
theorem covers_of_inside {name : String} (h : Inside bucketKey (conf.base ++ key) name) :
    policy.Covers conf.bucket name := by
  obtain ⟨actions, _, hstatements⟩ := buildPolicy_ok hconf hkey hpolicy
  have hfull := plain_objectArn hproper.bucket (plain_full hproper hkey)
  rcases h with rfl | ⟨hzarr, rest, rfl⟩
  · by_cases hzarr : bucketKey = .zarr
    · rw [if_pos hzarr] at hstatements
      exact ⟨_, hstatements ▸ List.mem_cons_self, _, List.mem_cons_self, (fits_plain hfull).mpr rfl⟩
    · rw [if_neg hzarr] at hstatements
      exact ⟨_, hstatements ▸ List.mem_cons_self, _, List.mem_cons_self, (fits_plain hfull).mpr rfl⟩
  · rw [if_pos hzarr] at hstatements
    refine ⟨_, hstatements ▸ List.mem_cons_self, _, List.mem_cons_of_mem _ List.mem_cons_self, ?_⟩
    have hpattern : (objectArn conf.bucket (conf.base ++ key ++ "/*")).toList =
        (objectArn conf.bucket (conf.base ++ key)).toList ++ "/*".toList := by
      simp [toList_objectArn]
    have hname : (objectArn conf.bucket (conf.base ++ key ++ "/" ++ rest)).toList =
        (objectArn conf.bucket (conf.base ++ key)).toList ++ '/' :: rest.toList := by
      simp [toList_objectArn]
    rw [hpattern, hname]
    exact fits_below hfull

end

/-! ## Two stores -/

/-- What is inside of one store does not begin with the object key of another. -/
theorem not_prefix_of_inside {base name : String} (hkey : IsKey key) (hkey' : IsKey key')
    (hne : key ≠ key') (h : Inside bucketKey (base ++ key) name) :
    ¬ (base ++ key').toList <+: name.toList := by
  have hname : ∃ rest, name.toList = base.toList ++ (key.toList ++ rest) := by
    rcases h with rfl | ⟨_, rest, rfl⟩
    · exact ⟨[], by simp⟩
    · exact ⟨'/' :: rest.toList, by simp⟩
  obtain ⟨rest, hname⟩ := hname
  intro hprefix
  rw [hname, String.toList_append] at hprefix
  have hinner := (List.prefix_append_right_inj _).mp hprefix
  have hsame : key'.toList = key.toList :=
    (List.prefix_of_prefix_length_le hinner (List.prefix_append _ _)
      (by rw [hkey.1, hkey'.1])).eq_of_length (by rw [hkey.1, hkey'.1])
  exact hne (String.toList_inj.mp hsame).symm

/-- The URI of a key is read back. -/
theorem parseS3Path_storePath (hconf : getBucketConfig config bucketKey = .ok conf)
    (hproper : conf.Proper) (hfull : buildObjectKey config bucketKey key = .ok full) :
    ∃ path, buildStorePath config bucketKey key = .ok path ∧
      parseS3Path path = .ok (conf.bucket, full) := by
  refine ⟨"s3://" ++ conf.bucket ++ "/" ++ full, ?_, ?_⟩
  · exact (bind_ok hconf).trans (bind_ok hfull)
  · have htext : ("s3://" ++ conf.bucket ++ "/" ++ full).toList =
        "s3://".toList ++ (conf.bucket.toList ++ '/' :: full.toList) := by simp
    have hname : ∀ c ∈ conf.bucket.toList, decide (c ≠ '/') = true := by
      intro c hc
      have hne : c ≠ '/' := by
        rintro rfl
        exact hproper.separator hc
      exact decide_eq_true hne
    have hdrop : (conf.bucket.toList ++ '/' :: full.toList).dropWhile (fun c => decide (c ≠ '/')) =
        '/' :: full.toList := by
      rw [List.dropWhile_append_of_pos hname]
      simp
    have htake : (conf.bucket.toList ++ '/' :: full.toList).takeWhile (fun c => decide (c ≠ '/')) =
        conf.bucket.toList := by
      rw [List.takeWhile_append_of_pos hname]
      simp
    have hmark : "s3://".toList.isPrefixOf
        ("s3://".toList ++ (conf.bucket.toList ++ '/' :: full.toList)) = true := by
      rw [List.isPrefixOf_iff_prefix]
      exact List.prefix_append _ _
    have hrest : ("s3://".toList ++ (conf.bucket.toList ++ '/' :: full.toList)).drop 5 =
        conf.bucket.toList ++ '/' :: full.toList := rfl
    rw [parseS3Path, htext, if_pos hmark, hrest]
    dsimp only
    rw [hdrop, htake]
    simp

/-- **Storage grants do not overlap.** Of two stores of one bucket, the policy for the second covers
and lists nothing of the first, and everything of its own; and store paths are read back. -/
theorem grants_do_not_overlap (config : DatalayerConfig) (bucketKey : BucketKey) (conf : BucketConfig)
    (hconf : getBucketConfig config bucketKey = .ok conf) (hproper : conf.Proper) (key key' : String)
    (hkey : IsKey key) (hkey' : IsKey key') (hne : key ≠ key') (action : String) (policy : Policy)
    (hpolicy : buildPolicy config bucketKey key' conf.bucket action = .ok policy) :
    ∃ full full', buildObjectKey config bucketKey key = .ok full ∧
      buildObjectKey config bucketKey key' = .ok full' ∧
      (∀ name, Inside bucketKey full name →
        ¬ policy.Covers conf.bucket name ∧ ¬ policy.Lists name) ∧
      (∀ name, Inside bucketKey full' name → policy.Covers conf.bucket name) ∧
      ∃ path, buildStorePath config bucketKey key = .ok path ∧
        parseS3Path path = .ok (conf.bucket, full) := by
  have hfull := buildObjectKey_key hconf hkey
  refine ⟨conf.base ++ key, conf.base ++ key', hfull, buildObjectKey_key hconf hkey', ?_, ?_,
    parseS3Path_storePath hconf hproper hfull⟩
  · intro name hinside
    have hno := not_prefix_of_inside hkey hkey' hne hinside
    constructor
    · intro hcovers
      exact hno (prefix_of_covers hconf hproper hkey' hpolicy hcovers)
    · intro hlists
      exact hno (prefix_of_lists hconf hproper hkey' hpolicy hlists)
  · intro name hinside
    exact covers_of_inside hconf hproper hkey' hpolicy hinside

/-! ## Two arrays -/

def arrays : DatalayerConfig := { zarr := some ⟨"zarr", some "data/"⟩ }

def zeros : String := "00000000000000000000000000000000"

def ones : String := "11111111111111111111111111111111"

/-- An upload to the one array covers its chunks and none of the other's. -/
theorem arrays_apart : ∃ policy, buildPolicy arrays .zarr ones "zarr" "upload" = .ok policy ∧
    policy.Covers "zarr" ("data/" ++ ones ++ "/" ++ "c/0/0") ∧
    ¬ policy.Covers "zarr" ("data/" ++ zeros ++ "/" ++ "c/0/0") ∧
    ¬ policy.Lists ("data/" ++ zeros) := by
  have hproper : BucketConfig.Proper ⟨"zarr", some "data/"⟩ := by
    constructor
    case bucket => decide
    case separator => decide
    case subpath =>
      intro subpath h
      cases h
      decide
  have hzeros : IsKey zeros := by decide
  have hones : IsKey ones := by decide
  obtain ⟨policy, hpolicy⟩ : ∃ policy, buildPolicy arrays .zarr ones "zarr" "upload" = .ok policy :=
    ⟨_, rfl⟩
  obtain ⟨full, full', hfull, hfull', hother, hown, _⟩ := grants_do_not_overlap arrays .zarr
    ⟨"zarr", some "data/"⟩ rfl hproper zeros ones hzeros hones (by decide) "upload" policy hpolicy
  cases hfull.symm.trans (show buildObjectKey arrays .zarr zeros = .ok ("data/" ++ zeros) from rfl)
  cases hfull'.symm.trans (show buildObjectKey arrays .zarr ones = .ok ("data/" ++ ones) from rfl)
  exact ⟨policy, hpolicy, hown _ (.inr ⟨rfl, "c/0/0", rfl⟩),
    (hother _ (.inr ⟨rfl, "c/0/0", rfl⟩)).1, (hother _ (.inl rfl)).2⟩

end Datalayer
end Rekuest
