import Rekuest.Datalayer.Grants
import Rekuest.Datalayer.Sessions

/-!
# Rekuest.Datalayer.Authority

What credentials are good for, and whose objects these are.

* `Policy.Permits`, `Policy.PermitsListing`: the actions on objects, and the listings, that a session
  under a policy is good for. `permits_iff`, `permitsListing_iff`: for the policy of a store these are
  the actions of its grant, on what is inside of the store.
* `Owns`: what belongs to a row. `owns_apart`: nothing belongs to two that have different paths.
* `Opened`, `Unscoped`: where credentials come from. `generateAccessGrant_ok`: what is in a grant.
-/

namespace Rekuest
namespace Datalayer

open Coding Fallible Interleave

/-! ## What a policy permits -/

/-- An action on an object is permitted. No object has a listing prefix, so a statement with a
condition on it says nothing about objects. -/
def Policy.Permits (policy : Policy) (action bucket name : String) : Prop :=
  ∃ s ∈ policy.statement, s.effect = "Allow" ∧ action ∈ s.action ∧ s.condition = none ∧
    ∃ resource ∈ s.resource, fits resource.toList (objectArn bucket name).toList = true

/-- A listing of what begins with `start` is permitted. -/
def Policy.PermitsListing (policy : Policy) (bucket start : String) : Prop :=
  ∃ s ∈ policy.statement, s.effect = "Allow" ∧ "s3:ListBucket" ∈ s.action ∧
    (∃ resource ∈ s.resource, fits resource.toList (bucketArn bucket).toList = true) ∧
    ∀ patterns, s.condition = some patterns →
      ∃ pattern ∈ patterns, fits pattern.toList start.toList = true

/-- The actions of a verb on a store of this type. -/
def actionsOf (bucketKey : BucketKey) (verb : String) : List String :=
  match actionMap bucketKey verb with
  | .ok actions => actions
  | .error _ => []

theorem listBucket_not_mem (bucketKey : BucketKey) (verb : String) :
    "s3:ListBucket" ∉ actionsOf bucketKey verb := by
  unfold actionsOf actionMap
  by_cases hread : verb = "read"
  · simp [hread]
  · by_cases hupload : verb = "upload"
    · cases bucketKey <;> simp [hupload]
    · by_cases hdelete : verb = "delete" <;> simp [hread, hupload, hdelete]

/-! ## Names of objects -/

/-- Up to the first slash, and what comes behind it. -/
theorem append_slash_inj {a a' b b' : List Char} (ha : '/' ∉ a) (ha' : '/' ∉ a')
    (h : a ++ '/' :: b = a' ++ '/' :: b') : a = a' ∧ b = b' := by
  induction a generalizing a' with
  | nil =>
    cases a' with
    | nil => exact ⟨rfl, (List.cons.inj h).2⟩
    | cons c a' => exact absurd (List.mem_cons.mpr (.inl (List.cons.inj h).1)) ha'
  | cons c a ih =>
    cases a' with
    | nil => exact absurd (List.mem_cons.mpr (.inl (List.cons.inj h).1.symm)) ha
    | cons c' a' =>
      have hrest := ih (fun hmem => ha (List.mem_cons_of_mem c hmem))
        (fun hmem => ha' (List.mem_cons_of_mem c' hmem)) (List.cons.inj h).2
      exact ⟨by rw [(List.cons.inj h).1, hrest.1], hrest.2⟩

variable {bucket bucket' name name' : String}

theorem toList_objectArn' (bucket name : String) : (objectArn bucket name).toList =
    "arn:aws:s3:::".toList ++ (bucket.toList ++ '/' :: name.toList) := by
  simp [objectArn, bucketArn]

theorem fits_objectArn (hbucket : '/' ∉ bucket.toList) (hbucket' : '/' ∉ bucket'.toList)
    (hplain : Plain (objectArn bucket' name').toList) :
    fits (objectArn bucket' name').toList (objectArn bucket name).toList = true ↔
      bucket = bucket' ∧ name = name' := by
  rw [fits_plain hplain]
  constructor
  · intro h
    rw [toList_objectArn', toList_objectArn'] at h
    obtain ⟨hb, hn⟩ := append_slash_inj hbucket hbucket' (List.append_cancel_left h)
    exact ⟨String.toList_inj.mp hb, String.toList_inj.mp hn⟩
  · intro h
    rw [h.1, h.2]

/-- What a pattern with a star at its end fits. -/
theorem fits_objectArn_star {start : String} (hbucket : '/' ∉ bucket.toList)
    (hbucket' : '/' ∉ bucket'.toList) (hplain : Plain (objectArn bucket' start).toList) :
    fits (objectArn bucket' (start ++ "*")).toList (objectArn bucket name).toList = true ↔
      bucket = bucket' ∧ ∃ rest, name = start ++ rest := by
  have hpattern : (objectArn bucket' (start ++ "*")).toList =
      (objectArn bucket' start).toList ++ ['*'] := by
    simp [toList_objectArn']
  rw [hpattern, fits_star hplain]
  constructor
  · intro h
    obtain ⟨rest, hrest⟩ := h
    rw [toList_objectArn', toList_objectArn', List.append_assoc, List.append_assoc,
      List.cons_append] at hrest
    obtain ⟨hb, hn⟩ := append_slash_inj hbucket' hbucket (List.append_cancel_left hrest)
    exact ⟨(String.toList_inj.mp hb).symm, String.ofList rest, String.toList_inj.mp (by simp [← hn])⟩
  · intro h
    obtain ⟨rfl, rest, rfl⟩ := h
    exact ⟨rest.toList, by simp [toList_objectArn']⟩

theorem plain_bucketArn (h : Plain bucket.toList) : Plain (bucketArn bucket).toList := by
  intro c hc
  refine plain_arn h c ?_
  rw [bucketArn, String.toList_append] at hc
  exact List.mem_append_left _ hc

theorem fits_bucketArn (h : Plain bucket'.toList) :
    fits (bucketArn bucket').toList (bucketArn bucket).toList = true ↔ bucket = bucket' := by
  rw [fits_plain (plain_bucketArn h)]
  constructor
  · intro heq
    simp only [bucketArn, String.toList_append] at heq
    exact String.toList_inj.mp (List.append_cancel_left heq)
  · intro heq
    rw [heq]

/-! ## The policy of a store -/

section

variable {config : DatalayerConfig} {bucketKey : BucketKey} {conf : BucketConfig}
  {key verb : String} {policy : Policy}
  (hconf : getBucketConfig config bucketKey = .ok conf) (hproper : conf.Proper)
  (hkey : IsKey key) (hpolicy : buildPolicy config bucketKey key conf.bucket verb = .ok policy)

include hconf hproper hkey hpolicy

theorem permits_iff {action : String} (hbucket : '/' ∉ bucket.toList) :
    policy.Permits action bucket name ↔
      action ∈ actionsOf bucketKey verb ∧ bucket = conf.bucket ∧
        Inside bucketKey (conf.base ++ key) name := by
  obtain ⟨actions, hactions, hstatements⟩ := buildPolicy_ok hconf hkey hpolicy
  have hactionsOf : actionsOf bucketKey verb = actions := by rw [actionsOf, hactions]
  have hfull := plain_full hproper hkey
  have hexact : fits (objectArn conf.bucket (conf.base ++ key)).toList
      (objectArn bucket name).toList = true ↔ bucket = conf.bucket ∧ name = conf.base ++ key :=
    fits_objectArn hbucket hproper.separator (plain_objectArn hproper.bucket hfull)
  have hslash : Plain (objectArn conf.bucket (conf.base ++ key ++ "/")).toList := by
    refine plain_objectArn hproper.bucket ?_
    rw [String.toList_append]
    refine hfull.append ?_
    intro c hc
    obtain rfl := List.mem_singleton.mp hc
    decide
  have hbelow : fits (objectArn conf.bucket (conf.base ++ key ++ "/" ++ "*")).toList
      (objectArn bucket name).toList = true ↔
        bucket = conf.bucket ∧ ∃ rest, name = conf.base ++ key ++ "/" ++ rest :=
    fits_objectArn_star hbucket hproper.separator hslash
  have hstar : conf.base ++ key ++ "/*" = conf.base ++ key ++ "/" ++ "*" := by
    show conf.base ++ key ++ ("/" ++ "*") = _
    exact String.append_assoc.symm
  rw [← hstar] at hbelow
  constructor
  · intro h
    obtain ⟨s, hs, _, haction, hcondition, resource, hresource, hfits⟩ := h
    rw [hstatements] at hs
    split at hs
    · rename_i hzarr
      simp only [List.mem_cons, List.not_mem_nil, or_false] at hs
      rcases hs with rfl | rfl
      · simp only [List.mem_cons, List.not_mem_nil, or_false] at hresource
        rcases hresource with rfl | rfl
        · obtain ⟨hb, hn⟩ := hexact.mp hfits
          exact ⟨hactionsOf ▸ haction, hb, .inl hn⟩
        · obtain ⟨hb, hrest⟩ := hbelow.mp hfits
          exact ⟨hactionsOf ▸ haction, hb, .inr ⟨hzarr, hrest⟩⟩
      · cases hcondition
    · obtain rfl := List.mem_singleton.mp hs
      obtain rfl := List.mem_singleton.mp hresource
      obtain ⟨hb, hn⟩ := hexact.mp hfits
      exact ⟨hactionsOf ▸ haction, hb, .inl hn⟩
  · intro h
    obtain ⟨haction, hb, hinside⟩ := h
    rw [hactionsOf] at haction
    by_cases hzarr : bucketKey = .zarr
    · rw [if_pos hzarr] at hstatements
      refine ⟨_, hstatements ▸ List.mem_cons_self, rfl, haction, rfl, ?_⟩
      rcases hinside with hn | ⟨_, hrest⟩
      · exact ⟨_, List.mem_cons_self, hexact.mpr ⟨hb, hn⟩⟩
      · exact ⟨_, List.mem_cons_of_mem _ List.mem_cons_self, hbelow.mpr ⟨hb, hrest⟩⟩
    · rw [if_neg hzarr] at hstatements
      refine ⟨_, hstatements ▸ List.mem_cons_self, rfl, haction, rfl, ?_⟩
      have hn := hinside.resolve_right fun h => hzarr h.1
      exact ⟨_, List.mem_cons_self, hexact.mpr ⟨hb, hn⟩⟩

theorem permitsListing_iff {start : String} :
    policy.PermitsListing bucket start ↔
      bucketKey = .zarr ∧ bucket = conf.bucket ∧ Inside bucketKey (conf.base ++ key) start := by
  obtain ⟨actions, hactions, hstatements⟩ := buildPolicy_ok hconf hkey hpolicy
  have hnone : "s3:ListBucket" ∉ actions := by
    have hnot := listBucket_not_mem bucketKey verb
    rwa [actionsOf, hactions] at hnot
  have hfull := plain_full hproper hkey
  have hbelow : fits (conf.base ++ key ++ "/*").toList start.toList = true ↔
      ∃ rest, start = conf.base ++ key ++ "/" ++ rest := by
    constructor
    · intro h
      have hslash : Plain ((conf.base ++ key).toList ++ ['/']) := by
        refine hfull.append ?_
        intro c hc
        obtain rfl := List.mem_singleton.mp hc
        decide
      rw [show (conf.base ++ key ++ "/*").toList = (conf.base ++ key).toList ++ ['/'] ++ ['*'] by
        simp, fits_star hslash] at h
      obtain ⟨rest, hrest⟩ := h
      exact ⟨String.ofList rest, String.toList_inj.mp (by simp [← hrest])⟩
    · intro h
      obtain ⟨rest, rfl⟩ := h
      have hfits : fits _ ((conf.base ++ key).toList ++ '/' :: rest.toList) = true :=
        fits_below hfull
      rwa [show (conf.base ++ key ++ "/*").toList = (conf.base ++ key).toList ++ "/*".toList by
        simp, show (conf.base ++ key ++ "/" ++ rest).toList =
          (conf.base ++ key).toList ++ '/' :: rest.toList by simp]
  have hexact : fits (conf.base ++ key).toList start.toList = true ↔ start = conf.base ++ key := by
    rw [fits_plain hfull, String.toList_inj]
  by_cases hzarr : bucketKey = .zarr
  · rw [if_pos hzarr] at hstatements
    simp only [Policy.PermitsListing, hstatements, hnone, Inside, hzarr, List.mem_cons,
      List.not_mem_nil, or_false, exists_eq_or_imp, exists_eq_left, fits_bucketArn hproper.bucket,
      Option.some.injEq, forall_eq', hexact, hbelow, true_and, false_and, and_false, false_or]
  · rw [if_neg hzarr] at hstatements
    simp [Policy.PermitsListing, hstatements, hnone, hzarr]

end

/-- The policy of a general grant: every object of its bucket may be read. -/
theorem general_permits_iff {conf : BucketConfig} {action : String} (hproper : conf.Proper)
    (hbucket : '/' ∉ bucket.toList) :
    (buildGeneralReadPolicy conf.bucket .media).Permits action bucket name ↔
      action = "s3:GetObject" ∧ bucket = conf.bucket := by
  have hempty : Plain (objectArn conf.bucket "").toList :=
    plain_objectArn hproper.bucket (by intro c hc; cases hc)
  have hstar : fits (objectArn conf.bucket ("" ++ "*")).toList (objectArn bucket name).toList =
      true ↔ bucket = conf.bucket ∧ ∃ rest, name = "" ++ rest :=
    fits_objectArn_star hbucket hproper.separator hempty
  have hname : ∃ rest, name = "" ++ rest := ⟨name, by simp⟩
  rw [show ("" ++ "*" : String) = "*" from rfl] at hstar
  simp only [Policy.Permits, buildGeneralReadPolicy, List.mem_cons, List.not_mem_nil, or_false,
    exists_eq_left, true_and, hstar, hname, and_true]

theorem general_permitsListing {start : String} :
    ¬ (buildGeneralReadPolicy bucket' .media).PermitsListing bucket start := by
  simp [Policy.PermitsListing, buildGeneralReadPolicy]

/-! ## What belongs to a row -/

/-- The object is a row's: it is where the row's bucket is, and inside of what the row's key names. -/
def Owns (config : SessionConfig) (row : StoreRow) (bucket name : String) : Prop :=
  ∃ conf, getBucketConfig config.toDatalayerConfig row.bucket = .ok conf ∧ bucket = conf.bucket ∧
    Inside row.bucket (conf.base ++ row.key) name

/-- The buckets and subpaths are as patterns and paths need them. -/
def SessionConfig.Proper (config : SessionConfig) : Prop :=
  ∀ bucketKey conf, getBucketConfig config.toDatalayerConfig bucketKey = .ok conf → conf.Proper

/-- No other store type has its objects below a key of the arrays. -/
def SessionConfig.Apart (config : SessionConfig) : Prop :=
  ∀ bucketKey conf arrays, getBucketConfig config.toDatalayerConfig bucketKey = .ok conf →
    getBucketConfig config.toDatalayerConfig .zarr = .ok arrays → conf.bucket = arrays.bucket →
    ∀ key, IsKey key → ¬ (arrays.base ++ key ++ "/").toList <+: conf.base.toList

/-- The path of a row, as it is built when the row is created. -/
def pathOf (conf : BucketConfig) (key : String) : String :=
  "s3://" ++ conf.bucket ++ "/" ++ (conf.base ++ key)

theorem buildStorePath_key {config : DatalayerConfig} {bucketKey : BucketKey} {conf : BucketConfig}
    {key : String} (hconf : getBucketConfig config bucketKey = .ok conf) (hkey : IsKey key) :
    buildStorePath config bucketKey key = .ok (pathOf conf key) :=
  (bind_ok hconf).trans (bind_ok (buildObjectKey_key hconf hkey))

/-- An object below a key of the arrays is no object of a store elsewhere. -/
theorem not_below {base base' key key' rest : String} (hkey : IsKey key)
    (hapart : ¬ (base' ++ key' ++ "/").toList <+: base.toList) :
    base ++ key ≠ base' ++ key' ++ "/" ++ rest := by
  intro h
  have hlist : base.toList ++ key.toList = (base' ++ key' ++ "/").toList ++ rest.toList := by
    rw [← String.toList_append, ← String.toList_append, h]
  rcases List.append_eq_append_iff.mp hlist with ⟨more, hmore, hrest⟩ | ⟨more, hmore, _⟩
  · -- The slash behind the array's key is at the end of the base or in the key.
    cases hlast : more.reverse with
    | nil =>
      obtain rfl : more = [] := List.reverse_eq_nil_iff.mp hlast
      exact hapart ⟨[], by rw [hmore, List.append_nil, List.append_nil]⟩
    | cons c init =>
      obtain rfl : more = init.reverse ++ [c] := by
        rw [← List.reverse_cons, ← hlast, List.reverse_reverse]
      have hend : (base' ++ key').toList ++ ['/'] = base.toList ++ init.reverse ++ [c] := by
        rw [List.append_assoc, ← hmore]
        simp
      have hc := (List.append_inj' hend rfl).2
      refine hkey.noSlash ?_
      rw [hrest, ← (List.cons.inj hc).1]
      simp
  · exact hapart ⟨more, hmore.symm⟩

/-- Nothing belongs to two rows with different paths. -/
theorem owns_apart {config : SessionConfig} {row row' : StoreRow} (hapart : config.Apart)
    (hkey : IsKey row.key) (hkey' : IsKey row'.key)
    (h : Owns config row bucket name) (h' : Owns config row' bucket name) :
    ∃ conf conf', getBucketConfig config.toDatalayerConfig row.bucket = .ok conf ∧
      getBucketConfig config.toDatalayerConfig row'.bucket = .ok conf' ∧
      pathOf conf row.key = pathOf conf' row'.key := by
  obtain ⟨conf, hconf, hbucket, hin⟩ := h
  obtain ⟨conf', hconf', hbucket', hin'⟩ := h'
  have hsame : conf.bucket = conf'.bucket := by rw [← hbucket, ← hbucket']
  refine ⟨conf, conf', hconf, hconf', ?_⟩
  suffices hfull : conf.base ++ row.key = conf'.base ++ row'.key by
    rw [pathOf, pathOf, hsame, hfull]
  rcases hin with hn | ⟨hzarr, rest, hn⟩
  · rcases hin' with hn' | ⟨hzarr', rest', hn'⟩
    · rw [← hn, ← hn']
    · rw [hzarr'] at hconf'
      exact absurd (hn.symm.trans hn')
        (not_below hkey (hapart _ _ _ hconf hconf' hsame _ hkey'))
  · rcases hin' with hn' | ⟨hzarr', rest', hn'⟩
    · rw [hzarr] at hconf
      exact absurd (hn'.symm.trans hn)
        (not_below hkey' (hapart _ _ _ hconf' hconf hsame.symm _ hkey))
    · rw [hzarr] at hconf
      rw [hzarr'] at hconf'
      cases hconf.symm.trans hconf'
      have hlist : (conf.base.toList ++ row.key.toList) ++ '/' :: rest.toList =
          (conf.base.toList ++ row'.key.toList) ++ '/' :: rest'.toList := by
        have heq := congrArg String.toList (hn.symm.trans hn')
        simpa using heq
      rw [List.append_assoc, List.append_assoc] at hlist
      have hkeys := append_slash_inj hkey.noSlash hkey'.noSlash (List.append_cancel_left hlist)
      rw [String.toList_inj.mp hkeys.1]

/-! ## Sessions -/

variable {config : SessionConfig} {env : Outside} {bucketKey : BucketKey} {conf : BucketConfig}
  {credentials : Credentials}

theorem sessionDuration_bounds (config : SessionConfig) (expiresIn : Option Int) :
    minSessionDurationSeconds ≤ sessionDuration config expiresIn ∧
      sessionDuration config expiresIn ≤ maxSessionDurationSeconds := by
  simp only [sessionDuration, minSessionDurationSeconds, maxSessionDurationSeconds]
  omega

/-- A duration within the bounds stays as it is. -/
theorem sessionDuration_again (config : SessionConfig) (expiresIn : Option Int) :
    sessionDuration config (some (sessionDuration config expiresIn)) =
      sessionDuration config expiresIn := by
  have hbounds := sessionDuration_bounds config expiresIn
  simp only [minSessionDurationSeconds, maxSessionDurationSeconds] at hbounds
  generalize sessionDuration config expiresIn = seconds at hbounds
  have hne : seconds ≠ 0 := by omega
  simp only [sessionDuration, if_neg hne, minSessionDurationSeconds, maxSessionDurationSeconds]
  omega

/-- The credentials are those of a session that STS has opened, under the policy and for the time. -/
def Opened (env : Outside) (credentials : Credentials) (policy : Policy) (duration : Int) : Prop :=
  ∃ session : AssumeRole, env.sts session = .ok credentials ∧ session.policy = some policy ∧
    session.durationSeconds = duration

/-- The service's own credentials, where the configuration allows them. -/
def Unscoped (config : SessionConfig) (credentials : Credentials) : Prop :=
  config.allowUnscopedFallback = true ∧ credentials = config.ownCredentials

theorem assumeRole_ok {action : String} {duration : Int} {policy : Policy}
    (h : assumeRole config env action duration (some policy) = .ok credentials) :
    Opened env credentials policy duration := by
  unfold assumeRole at h
  split at h
  · cases h
  · rename_i roleArn _
    dsimp only at h
    split at h
    · rename_i answer hanswer
      cases h
      exact ⟨_, hanswer, rfl, rfl⟩
    · cases h

theorem orFallback_ok {session : Except Failure Credentials} {what : String}
    (h : orFallback config session what = .ok credentials) :
    session = .ok credentials ∨ Unscoped config credentials := by
  cases session with
  | ok answer =>
    cases h
    exact .inl rfl
  | error e =>
    refine .inr ?_
    by_cases hallow : config.allowUnscopedFallback = true
    · simp only [orFallback, unscopedFallback, if_pos hallow] at h
      cases h
      exact ⟨hallow, rfl⟩
    · simp only [orFallback, unscopedFallback, if_neg hallow] at h
      cases h

theorem Failure.lift_ok_iff {α : Type} {x : Except Error α} {a : α} :
    Failure.lift x = .ok a ↔ x = .ok a := by
  cases x with
  | ok b => exact ⟨fun h => congrArg _ (Except.ok.inj h), fun h => congrArg _ (Except.ok.inj h)⟩
  | error e =>
    constructor
    · intro h
      cases h
    · intro h
      cases h

theorem issueTemporaryCredentials_ok {objectPath verb : String} {ttl : Int}
    (h : issueTemporaryCredentials config env bucketKey objectPath verb ttl = .ok credentials) :
    Unscoped config credentials ∨ ∃ conf policy,
      getBucketConfig config.toDatalayerConfig bucketKey = .ok conf ∧
      buildPolicy config.toDatalayerConfig bucketKey objectPath conf.bucket verb = .ok policy ∧
      Opened env credentials policy (sessionDuration config (some ttl)) := by
  obtain ⟨conf, hconf, h⟩ := bind_ok_iff.mp h
  obtain ⟨policy, hpolicy, h⟩ := bind_ok_iff.mp h
  rcases orFallback_ok h with hsession | hown
  · exact .inr ⟨conf, policy, Failure.lift_ok_iff.mp hconf, Failure.lift_ok_iff.mp hpolicy,
      assumeRole_ok hsession⟩
  · exact .inl hown

theorem issueTemporaryUserAccessCredentials_ok {organization : Nat} {ttl : Int}
    (h : issueTemporaryUserAccessCredentials config env bucketKey organization ttl =
      .ok credentials) :
    Unscoped config credentials ∨ ∃ conf,
      getBucketConfig config.toDatalayerConfig bucketKey = .ok conf ∧
      Opened env credentials (buildGeneralReadPolicy conf.bucket bucketKey)
        (sessionDuration config (some ttl)) := by
  obtain ⟨conf, hconf, h⟩ := bind_ok_iff.mp h
  rcases orFallback_ok h with hsession | hown
  · exact .inr ⟨conf, Failure.lift_ok_iff.mp hconf, assumeRole_ok hsession⟩
  · exact .inl hown

/-- What the grant for one store holds. -/
theorem generateAccessGrant_ok {verb : String} {store : StoreId} {row : StoreRow}
    {expiresIn : Option Int} {grant : AccessGrant}
    (h : generateAccessGrant config env bucketKey verb store row expiresIn = .ok grant) :
    ∃ conf, getBucketConfig config.toDatalayerConfig bucketKey = .ok conf ∧
      grant.store = store ∧ grant.bucket = conf.bucket ∧
      buildObjectKey config.toDatalayerConfig bucketKey row.key = .ok grant.key ∧
      buildStorePath config.toDatalayerConfig bucketKey row.key = .ok grant.path ∧
      grant.expiresIn = sessionDuration config expiresIn ∧
      (Unscoped config grant.credentials ∨ ∃ policy,
        buildPolicy config.toDatalayerConfig bucketKey row.key conf.bucket verb = .ok policy ∧
        Opened env grant.credentials policy grant.expiresIn) := by
  obtain ⟨conf, hconf, h⟩ := bind_ok_iff.mp h
  obtain ⟨credentials, hcredentials, h⟩ := bind_ok_iff.mp h
  obtain ⟨full, hfull, h⟩ := bind_ok_iff.mp h
  obtain ⟨path, hpath, h⟩ := bind_ok_iff.mp h
  cases h
  have hconf := Failure.lift_ok_iff.mp hconf
  refine ⟨conf, hconf, rfl, rfl, Failure.lift_ok_iff.mp hfull, Failure.lift_ok_iff.mp hpath, rfl, ?_⟩
  rcases issueTemporaryCredentials_ok hcredentials with hown | ⟨conf', policy, hconf', hpolicy, hopen⟩
  · exact .inl hown
  · cases hconf.symm.trans hconf'
    rw [sessionDuration_again] at hopen
    exact .inr ⟨policy, hpolicy, hopen⟩

/-- `generate_file_read_url` and `generate_file_delete_url` hand out nothing. -/
theorem generateFileUrl_raises (config : SessionConfig) (env : Outside) (action : String)
    (bucketKey : BucketKey) (objectPath : String) (expiresIn : Option Int) (grant : AccessGrant) :
    generateFileUrl config env action bucketKey objectPath expiresIn ≠ .ok grant := by
  intro h
  obtain ⟨_, _, h⟩ := bind_ok_iff.mp h
  obtain ⟨_, _, h⟩ := bind_ok_iff.mp h
  obtain ⟨_, _, h⟩ := bind_ok_iff.mp h
  obtain ⟨_, _, h⟩ := bind_ok_iff.mp h
  cases h

end Datalayer
end Rekuest
