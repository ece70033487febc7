import Rekuest.Datalayer.Authority

/-!
# Rekuest.Datalayer.Requests

What clients can do with the credentials that they are handed, over every history of requests.

* `Entitled`: what a client has asked for. `Confined`: credentials that are good for that alone.
* `fair_of_row`, `fair_general`: the grants that are handed out are `Fair` ones.
* `Kept`: what every request keeps (`kept_step`), among it that no two rows have one path.
* `credentials_confined`: so no credentials ever reach further than what they were asked for, and
  nothing belongs to two stores.
-/

namespace Rekuest
namespace Datalayer

open Fallible Interleave

variable {config : SessionConfig} {env : Outside} {bucket name : String}

/-! ## What a request is for -/

/-- The store type and the verb of a request for one store. -/
def Request.purpose : Request → Option (BucketKey × String)
  | .mediaUpload _ => some (.media, "upload")
  | .bigfileUpload _ => some (.bigfile, "upload")
  | .zarrUpload _ => some (.zarr, "upload")
  | .parquetUpload _ => some (.parquet, "upload")
  | .access bucketKey _ => some (bucketKey, "read")
  | _ => none

/-- The client has asked for this: to read the media in general, or for a store of a type, of which
this is an action and an object. -/
def Entitled (config : SessionConfig) (w : World) (h : Handed) (action bucket name : String) : Prop :=
  (∃ organization conf, h.request = .generalMediaAccess organization ∧ action = "s3:GetObject" ∧
    getBucketConfig config.toDatalayerConfig .media = .ok conf ∧ bucket = conf.bucket) ∨
  ∃ bucketKey verb grant row, h.request.purpose = some (bucketKey, verb) ∧
    h.grant.scoped? = some grant ∧ w.stores.get grant.store = some row ∧ row.bucket = bucketKey ∧
    action ∈ actionsOf bucketKey verb ∧ Owns config row bucket name

/-- The client has asked for an array, and what it lists is of it. -/
def EntitledListing (config : SessionConfig) (w : World) (h : Handed) (bucket start : String) : Prop :=
  ∃ verb grant row, h.request.purpose = some (.zarr, verb) ∧ h.grant.scoped? = some grant ∧
    w.stores.get grant.store = some row ∧ row.bucket = .zarr ∧ Owns config row bucket start

/-- The grant names a row, with its object and its path: the one that was asked for, or for an upload
the one that the request has made, under the key that was generated for it. -/
def Labelled (config : SessionConfig) (w : World) (h : Handed) : Prop :=
  ∀ grant, h.grant.scoped? = some grant →
    (∀ bucketKey store, h.request = .access bucketKey store → grant.store = store) ∧
    ∃ row, w.stores.get grant.store = some row ∧
      (∀ bucketKey, h.request.purpose = some (bucketKey, "upload") → row.key = h.env.uuid) ∧
      row.path = some grant.path ∧
      Owns config row grant.bucket grant.key ∧
      parseS3Path grant.path = .ok (grant.bucket, grant.key)

/-- The credentials are good for what was asked for, for as long as the grant says, and no more. -/
def Confined (config : SessionConfig) (w : World) (h : Handed) : Prop :=
  ∃ policy, Opened h.env h.grant.common.credentials policy h.grant.common.expiresIn ∧
    minSessionDurationSeconds ≤ h.grant.common.expiresIn ∧
    h.grant.common.expiresIn ≤ maxSessionDurationSeconds ∧
    (∀ action bucket name, '/' ∉ bucket.toList →
      (policy.Permits action bucket name ↔ Entitled config w h action bucket name)) ∧
    ∀ bucket start, policy.PermitsListing bucket start ↔ EntitledListing config w h bucket start

def Fair (config : SessionConfig) (w : World) (h : Handed) : Prop :=
  Labelled config w h ∧ (Unscoped config h.grant.common.credentials ∨ Confined config w h)

/-- What never changes of a row. -/
def StoreRow.Same (row row' : StoreRow) : Prop :=
  row'.model = row.model ∧ row'.path = row.path ∧ row'.key = row.key ∧ row'.bucket = row.bucket

theorem owns_same {row row' : StoreRow} (h : row.Same row') :
    Owns config row' bucket name ↔ Owns config row bucket name := by
  obtain ⟨_, _, hkey, hbucket⟩ := h
  rw [Owns, Owns, hkey, hbucket]

structure SoundRow (config : SessionConfig) (row : StoreRow) : Prop where
  model : row.model = row.bucket
  key : IsKey row.key
  path : ∃ conf, getBucketConfig config.toDatalayerConfig row.bucket = .ok conf ∧
    row.path = some (pathOf conf row.key)

theorem SoundRow.same {row row' : StoreRow} (h : SoundRow config row) (hsame : row.Same row') :
    SoundRow config row' := by
  obtain ⟨hmodel, hpath, hkey, hbucket⟩ := hsame
  constructor
  case model => rw [hmodel, hbucket, h.model]
  case key =>
    rw [hkey]
    exact h.key
  case path =>
    rw [hbucket, hpath, hkey]
    exact h.path

section

variable {w : World} {h : Handed} {verb action : String} {row : StoreRow} {conf : BucketConfig}
  {grant : AccessGrant}

theorem owns_iff (hconf : getBucketConfig config.toDatalayerConfig row.bucket = .ok conf) :
    Owns config row bucket name ↔
      bucket = conf.bucket ∧ Inside row.bucket (conf.base ++ row.key) name := by
  constructor
  · intro ⟨conf', hconf', hbucket, hin⟩
    cases hconf.symm.trans hconf'
    exact ⟨hbucket, hin⟩
  · exact fun hown => ⟨conf, hconf, hown⟩

variable (hrow : w.stores.get grant.store = some row)
  (hpurpose : h.request.purpose = some (row.bucket, verb)) (hscoped : h.grant.scoped? = some grant)

include hrow hpurpose hscoped

/-- Who has asked for a row has asked for what can be done with its own objects. -/
theorem entitled_iff_of_row : Entitled config w h action bucket name ↔
    action ∈ actionsOf row.bucket verb ∧ Owns config row bucket name := by
  constructor
  · intro hentitled
    rcases hentitled with ⟨organization, _, heq, _⟩ | hentitled
    · rw [heq] at hpurpose
      cases hpurpose
    · obtain ⟨_, _, grant', row', hpurpose', hscoped', hrow', _, haction, hown⟩ := hentitled
      cases hpurpose.symm.trans hpurpose'
      cases hscoped.symm.trans hscoped'
      cases hrow.symm.trans hrow'
      exact ⟨haction, hown⟩
  · intro ⟨haction, hown⟩
    exact .inr ⟨_, _, grant, row, hpurpose, hscoped, hrow, rfl, haction, hown⟩

theorem entitledListing_iff_of_row : EntitledListing config w h bucket name ↔
    row.bucket = .zarr ∧ Owns config row bucket name := by
  constructor
  · intro ⟨_, grant', row', _, hscoped', hrow', hzarr, hown⟩
    cases hscoped.symm.trans hscoped'
    cases hrow.symm.trans hrow'
    exact ⟨hzarr, hown⟩
  · intro ⟨hzarr, hown⟩
    exact ⟨verb, grant, row, by rw [hpurpose, hzarr], hscoped, hrow, hzarr, hown⟩

end

/-- A row belongs to the type of store that it is asked for under. -/
theorem fair_of_row {w : World} {h : Handed} (verb : String) {row : StoreRow} {store : StoreId}
    {grant : AccessGrant} (hproper : config.Proper) (hrow : w.stores.get store = some row)
    (hsound : SoundRow config row) (hpurpose : h.request.purpose = some (row.bucket, verb))
    (hnamed : ∀ bucketKey s, h.request = .access bucketKey s → store = s)
    (hmade : ∀ bucketKey, h.request.purpose = some (bucketKey, "upload") → row.key = h.env.uuid)
    (hscoped : h.grant.scoped? = some grant)
    (hcommon : h.grant.common = grant.toGeneralAccessGrant) (expiresIn : Option Int)
    (hgrant : generateAccessGrant config h.env row.bucket verb store row expiresIn = .ok grant) :
    Fair config w h := by
  obtain ⟨conf, hconf, hstore, hbucket, hfull, hpath, hexpires, hcredentials⟩ :=
    generateAccessGrant_ok hgrant
  have hfullKey := (Except.ok.inj ((buildObjectKey_key hconf hsound.key).symm.trans hfull)).symm
  have hstorePath := (Except.ok.inj ((buildStorePath_key hconf hsound.key).symm.trans hpath)).symm
  have hnamedRow : w.stores.get grant.store = some row := hstore ▸ hrow
  refine ⟨?_, ?_⟩
  · intro grant' hgrant'
    cases hscoped.symm.trans hgrant'
    refine ⟨fun b s hs => hstore.trans (hnamed b s hs), row, hnamedRow, hmade, ?_, ?_, ?_⟩
    · obtain ⟨conf', hconf', hrowPath⟩ := hsound.path
      cases hconf.symm.trans hconf'
      rw [hrowPath, hstorePath]
    · exact (owns_iff hconf).mpr ⟨hbucket, .inl hfullKey⟩
    · obtain ⟨path, hbuilt, hparsed⟩ := parseS3Path_storePath hconf (hproper _ _ hconf) hfull
      cases hbuilt.symm.trans hpath
      rw [hparsed, hbucket]
  · rcases hcredentials with hown | ⟨policy, hpolicy, hopen⟩
    · exact .inl (hcommon ▸ hown)
    · obtain ⟨hmin, hmax⟩ := sessionDuration_bounds config expiresIn
      rw [← hexpires] at hmin hmax
      refine .inr ⟨policy, hcommon ▸ hopen, hcommon ▸ hmin, hcommon ▸ hmax, ?_, ?_⟩
      · intro action bucket name hslash
        rw [permits_iff hconf (hproper _ _ hconf) hsound.key hpolicy hslash,
          entitled_iff_of_row hnamedRow hpurpose hscoped, owns_iff hconf]
      · intro bucket start
        rw [permitsListing_iff hconf (hproper _ _ hconf) hsound.key hpolicy,
          entitledListing_iff_of_row hnamedRow hpurpose hscoped, owns_iff hconf]

/-- A general grant reads the media. -/
theorem fair_general {w : World} {organization : Nat} {expiresIn : Option Int}
    {grant : GeneralAccessGrant} (hproper : config.Proper)
    (h : generateGeneralMediaAccessGrant config env organization expiresIn = .ok grant) :
    Fair config w ⟨env, .generalMediaAccess organization, .general grant⟩ := by
  obtain ⟨conf, hconf, h⟩ := bind_ok_iff.mp h
  obtain ⟨credentials, hcredentials, h⟩ := bind_ok_iff.mp h
  cases h
  have hconf := Failure.lift_ok_iff.mp hconf
  have hlabelled : Labelled config w ⟨env, .generalMediaAccess organization, .general
      ⟨"granted", credentials, config.region, conf.bucket, sessionDuration config expiresIn⟩⟩ := by
    intro _ hnone
    cases hnone
  refine ⟨hlabelled, ?_⟩
  rcases issueTemporaryUserAccessCredentials_ok hcredentials with hown | ⟨conf', hconf', hopen⟩
  · exact .inl hown
  · cases hconf.symm.trans hconf'
    rw [sessionDuration_again] at hopen
    refine .inr ⟨_, hopen, (sessionDuration_bounds config expiresIn).1,
      (sessionDuration_bounds config expiresIn).2, ?_, ?_⟩
    · intro action bucket name hslash
      rw [general_permits_iff (hproper _ _ hconf) hslash, Entitled]
      constructor
      · intro hpermits
        exact .inl ⟨organization, conf, rfl, hpermits.1, hconf, hpermits.2⟩
      · intro hentitled
        rcases hentitled with ⟨_, conf', _, haction, hconf', hbucket⟩ | hentitled
        · cases hconf.symm.trans hconf'
          exact ⟨haction, hbucket⟩
        · obtain ⟨_, _, _, _, hpurpose, _⟩ := hentitled
          cases hpurpose
    · intro bucket start
      constructor
      · intro hlisting
        exact absurd hlisting general_permitsListing
      · intro hentitled
        obtain ⟨_, _, _, hpurpose, _⟩ := hentitled
        cases hpurpose

/-! ## What every request keeps -/

/-- The rows of before are still there. -/
def World.Grows (w w' : World) : Prop :=
  ∀ store row, w.stores.get store = some row → ∃ row', w'.stores.get store = some row' ∧ row.Same row'

theorem entitled_grows {w w' : World} {h : Handed} {action : String} (hgrows : w.Grows w')
    (hlabelled : Labelled config w h) :
    Entitled config w' h action bucket name ↔ Entitled config w h action bucket name := by
  refine or_congr_right ?_
  constructor
  · intro hentitled
    obtain ⟨bucketKey, verb, grant, row', hpurpose, hscoped, hrow', hbucket, haction, hown⟩ := hentitled
    obtain ⟨_, row, hrow, _⟩ := hlabelled grant hscoped
    obtain ⟨same, hget, hsame⟩ := hgrows _ _ hrow
    cases hget.symm.trans hrow'
    exact ⟨bucketKey, verb, grant, row, hpurpose, hscoped, hrow, hsame.2.2.2 ▸ hbucket, haction,
      (owns_same hsame).mp hown⟩
  · intro hentitled
    obtain ⟨bucketKey, verb, grant, row, hpurpose, hscoped, hrow, hbucket, haction, hown⟩ := hentitled
    obtain ⟨row', hrow', hsame⟩ := hgrows _ _ hrow
    exact ⟨bucketKey, verb, grant, row', hpurpose, hscoped, hrow', hsame.2.2.2.trans hbucket, haction,
      (owns_same hsame).mpr hown⟩

theorem entitledListing_grows {w w' : World} {h : Handed} {start : String} (hgrows : w.Grows w')
    (hlabelled : Labelled config w h) :
    EntitledListing config w' h bucket start ↔ EntitledListing config w h bucket start := by
  constructor
  · intro hentitled
    obtain ⟨verb, grant, row', hpurpose, hscoped, hrow', hzarr, hown⟩ := hentitled
    obtain ⟨_, row, hrow, _⟩ := hlabelled grant hscoped
    obtain ⟨same, hget, hsame⟩ := hgrows _ _ hrow
    cases hget.symm.trans hrow'
    exact ⟨verb, grant, row, hpurpose, hscoped, hrow, hsame.2.2.2 ▸ hzarr, (owns_same hsame).mp hown⟩
  · intro hentitled
    obtain ⟨verb, grant, row, hpurpose, hscoped, hrow, hzarr, hown⟩ := hentitled
    obtain ⟨row', hrow', hsame⟩ := hgrows _ _ hrow
    exact ⟨verb, grant, row', hpurpose, hscoped, hrow', hsame.2.2.2.trans hzarr,
      (owns_same hsame).mpr hown⟩

theorem Fair.grows {w w' : World} {h : Handed} (hfair : Fair config w h) (hgrows : w.Grows w') :
    Fair config w' h := by
  obtain ⟨hlabelled, hcredentials⟩ := hfair
  refine ⟨?_, ?_⟩
  · intro grant hscoped
    obtain ⟨hnamed, row, hrow, hmade, hpath, hown, hparsed⟩ := hlabelled grant hscoped
    obtain ⟨row', hrow', hsame⟩ := hgrows _ _ hrow
    exact ⟨hnamed, row', hrow', fun b hb => hsame.2.2.1.trans (hmade b hb), hsame.2.1.trans hpath,
      (owns_same hsame).mpr hown, hparsed⟩
  · rcases hcredentials with hown | ⟨policy, hopen, hmin, hmax, hpermits, hlisting⟩
    · exact .inl hown
    · refine .inr ⟨policy, hopen, hmin, hmax, ?_, ?_⟩
      · intro action bucket name hslash
        rw [hpermits action bucket name hslash, entitled_grows hgrows hlabelled]
      · intro bucket start
        rw [hlisting bucket start, entitledListing_grows hgrows hlabelled]

structure Kept (config : SessionConfig) (w : World) : Prop where
  rows : ∀ store row, w.stores.get store = some row → SoundRow config row
  unique : ∀ store store' row row', w.stores.get store = some row → w.stores.get store' = some row' →
    row.path = row'.path → store = store'
  handed : ∀ h ∈ w.handed, Fair config w h
  fetched : ∀ f ∈ w.fetched, ∃ row, w.stores.get f.store = some row ∧ Owns config row f.bucket f.key

theorem kept_start (config : SessionConfig) : Kept config {} := by
  constructor
  case rows =>
    intro store row h
    cases h
  case unique =>
    intro store store' row row' h
    cases h
  case handed =>
    intro h hmem
    cases hmem
  case fetched =>
    intro f hmem
    cases hmem

variable {w : World}

theorem kept_hand {h : Handed} (hkept : Kept config w) (hfair : Fair config w h) :
    Kept config { w with handed := w.handed ++ [h] } := by
  constructor
  case rows => exact hkept.rows
  case unique => exact hkept.unique
  case handed =>
    intro h' hmem
    rcases List.mem_append.mp hmem with hmem | hmem
    · exact hkept.handed h' hmem
    · obtain rfl := List.mem_singleton.mp hmem
      exact hfair
  case fetched => exact hkept.fetched

theorem kept_insert {row : StoreRow} (hkept : Kept config w) (hsound : SoundRow config row)
    (hnew : ∀ store row', w.stores.get store = some row' → row'.path ≠ row.path) :
    Kept config { w with stores := w.stores.insert row } := by
  have hgrows : w.Grows { w with stores := w.stores.insert row } :=
    fun _ row' h => ⟨row', Table.get_insert_of_get h, rfl, rfl, rfl, rfl⟩
  constructor
  case rows =>
    intro store row' h
    rcases Table.get_insert_cases h with ⟨_, rfl⟩ | ⟨_, hold⟩
    · exact hsound
    · exact hkept.rows _ _ hold
  case unique =>
    intro store store' row₁ row₂ h₁ h₂ hpath
    rcases Table.get_insert_cases h₁ with ⟨hs, rfl⟩ | ⟨_, hold₁⟩
    · rcases Table.get_insert_cases h₂ with ⟨hs', _⟩ | ⟨_, hold₂⟩
      · rw [hs, hs']
      · exact absurd hpath.symm (hnew _ _ hold₂)
    · rcases Table.get_insert_cases h₂ with ⟨_, rfl⟩ | ⟨_, hold₂⟩
      · exact absurd hpath (hnew _ _ hold₁)
      · exact hkept.unique _ _ _ _ hold₁ hold₂ hpath
  case handed =>
    intro h hmem
    exact (hkept.handed h hmem).grows hgrows
  case fetched =>
    intro f hmem
    obtain ⟨row', hrow', hown⟩ := hkept.fetched f hmem
    exact ⟨row', Table.get_insert_of_get hrow', hown⟩

/-- A row is finished, with what has been read for it. -/
theorem kept_modify {store : StoreId} {row : StoreRow} (filled : StoreRow) (more : List Fetched)
    (hkept : Kept config w) (hrow : w.stores.get store = some row) (hsame : row.Same filled)
    (hmore : ∀ f ∈ more, f.store = store ∧ Owns config row f.bucket f.key) :
    Kept config { w with
      stores := w.stores.modify store fun _ => filled, fetched := w.fetched ++ more } := by
  have hget : ∀ s r, (w.stores.modify store fun _ => filled).get s = some r →
      ∃ old, w.stores.get s = some old ∧ old.Same r := by
    intro s r h
    by_cases hs : s = store
    · subst hs
      rw [Table.get_modify_self, hrow] at h
      cases h
      exact ⟨row, hrow, hsame⟩
    · rw [Table.get_modify_of_ne hs] at h
      exact ⟨r, h, rfl, rfl, rfl, rfl⟩
  have hgrows : w.Grows { w with
      stores := w.stores.modify store fun _ => filled, fetched := w.fetched ++ more } := by
    intro s r h
    by_cases hs : s = store
    · subst hs
      cases hrow.symm.trans h
      exact ⟨filled, by simp [hrow], hsame⟩
    · exact ⟨r, (Table.get_modify_of_ne hs).trans h, rfl, rfl, rfl, rfl⟩
  constructor
  case rows =>
    intro s r h
    obtain ⟨old, hold, hs⟩ := hget s r h
    exact (hkept.rows _ _ hold).same hs
  case unique =>
    intro s s' r r' h h' hpath
    obtain ⟨old, hold, hs⟩ := hget s r h
    obtain ⟨old', hold', hs'⟩ := hget s' r' h'
    exact hkept.unique _ _ _ _ hold hold' (by rw [← hs.2.1, ← hs'.2.1, hpath])
  case handed =>
    intro h hmem
    exact (hkept.handed h hmem).grows hgrows
  case fetched =>
    intro f hmem
    rcases List.mem_append.mp hmem with hmem | hmem
    · obtain ⟨r, hr, hown⟩ := hkept.fetched f hmem
      obtain ⟨r', hr', hs⟩ := hgrows _ _ hr
      exact ⟨r', hr', (owns_same hs).mpr hown⟩
    · obtain ⟨hstore, hown⟩ := hmore f hmem
      obtain ⟨r', hr', hs⟩ := hgrows _ _ hrow
      exact ⟨r', hstore ▸ hr', (owns_same hs).mpr hown⟩

/-! ## Requests -/

/-- The fields of a type are beside those of every store. -/
def Beside (fields : StoreRow → StoreRow) : Prop := ∀ row : StoreRow, row.Same (fields row)

theorem beside_upload (input : RequestUploadInput) : Beside input.fields :=
  fun _ => ⟨rfl, rfl, rfl, rfl⟩

theorem beside_zarr (input : RequestZarrUploadInput) : Beside input.fields :=
  fun _ => ⟨rfl, rfl, rfl, rfl⟩

theorem not_taken {path : String} (h : w.taken path = false) {store : StoreId} {row : StoreRow}
    (hrow : w.stores.get store = some row) : row.path ≠ some path := by
  intro hpath
  have hmem : (store, row) ∈ w.stores.select fun _ row => row.path = some path :=
    Table.mem_select.mpr ⟨hrow, by simp [hpath]⟩
  have hnil : w.stores.select (fun _ row => row.path = some path) = [] := by
    simpa [World.taken] using h
  rw [hnil] at hmem
  cases hmem

/-- A request to upload: the store that it makes stays, with or without credentials. -/
theorem kept_upload {bucketKey : BucketKey} {fields : StoreRow → StoreRow} (maxBytes : Int)
    {request : Request} (hproper : config.Proper) (hkept : Kept config w) (hkey : IsKey env.uuid)
    (hfields : Beside fields) (hpurpose : request.purpose = some (bucketKey, "upload"))
    (hnot : ∀ b s, request ≠ .access b s) :
    Kept config (generateUploadGrant config env w bucketKey fields maxBytes).1 ∧
      ∀ grant, (generateUploadGrant config env w bucketKey fields maxBytes).2 = .ok grant →
        Fair config (generateUploadGrant config env w bucketKey fields maxBytes).1
          ⟨env, request, .upload grant⟩ := by
  unfold generateUploadGrant
  split
  · exact ⟨hkept, by intro _ h; cases h⟩
  · rename_i path hpath
    split
    · exact ⟨hkept, by intro _ h; cases h⟩
    · rename_i hfree
      have hpath := Failure.lift_ok_iff.mp hpath
      obtain ⟨conf, hconf, _⟩ := bind_ok_iff.mp hpath
      cases (buildStorePath_key hconf hkey).symm.trans hpath
      have hsame := hfields
        { model := bucketKey, path := some (pathOf conf env.uuid), key := env.uuid, bucket := bucketKey }
      have hsound : SoundRow config (fields
          { model := bucketKey, path := some (pathOf conf env.uuid), key := env.uuid
            bucket := bucketKey }) := SoundRow.same ⟨rfl, hkey, conf, hconf, rfl⟩ hsame
      refine ⟨kept_insert hkept hsound ?_, ?_⟩
      · intro store row hrow
        rw [hsame.2.1]
        exact not_taken (by simpa using hfree) hrow
      · intro grant hgrant
        obtain ⟨granted, hgranted, hgrant⟩ := bind_ok_iff.mp hgrant
        cases hgrant
        refine fair_of_row "upload" hproper Table.get_insert_next hsound ?_
          (fun b s h => absurd h (hnot b s)) (fun _ _ => hsame.2.2.1) rfl rfl none ?_
        · rw [hsame.2.2.2]
          exact hpurpose
        · rw [hsame.2.2.2]
          exact hgranted

theorem getStore_ok {model : BucketKey} {store : StoreId} {row : StoreRow}
    (h : w.getStore model store = .ok row) :
    w.stores.get store = some row ∧ row.model = model := by
  unfold World.getStore at h
  split at h
  · rename_i found hfound
    cases h
    obtain ⟨hget, hmodel⟩ := Option.filter_eq_some_iff.mp hfound
    exact ⟨hget, by simpa using hmodel⟩
  · cases h

/-- A request to read a store. -/
theorem fair_access {bucketKey : BucketKey} {store : StoreId} {grant : AccessGrant}
    (hproper : config.Proper) (hkept : Kept config w)
    (h : requestAccess config env w bucketKey store = .ok grant) :
    Fair config w ⟨env, .access bucketKey store, .access grant⟩ := by
  obtain ⟨row, hrow, h⟩ := bind_ok_iff.mp h
  obtain ⟨hget, hmodel⟩ := getStore_ok hrow
  have hsound := hkept.rows _ _ hget
  have hbucket : row.bucket = bucketKey := hsound.model.symm.trans hmodel
  have hgrant : generateAccessGrant config env row.bucket "read" store row none = .ok grant := by
    rw [hbucket]
    cases bucketKey <;> exact h
  have hpurpose : (Request.access bucketKey store).purpose = some (row.bucket, "read") := by
    rw [hbucket]
    rfl
  have hread : ∀ b, (Request.access bucketKey store).purpose = some (b, "upload") →
      row.key = env.uuid := by
    intro b hb
    simp [Request.purpose] at hb
  refine fair_of_row "read" hproper hget hsound hpurpose ?_ hread rfl rfl none hgrant
  intro b s heq
  cases heq
  rfl

/-- What is read for an array when it is finished is its own. -/
theorem fillInfo_ok {row filled : StoreRow} {object : Option (String × String)}
    (hproper : config.Proper) (hsound : SoundRow config row)
    (h : fillInfo config env row = .ok (filled, object)) :
    row.Same filled ∧ ∀ o, object = some o → Owns config row o.1 o.2 := by
  obtain ⟨path, hpath, h⟩ := bind_ok_iff.mp h
  obtain ⟨conf, hconf, hrowPath⟩ := hsound.path
  have hpath := Failure.lift_ok_iff.mp hpath
  cases (buildStorePath_key hconf hsound.key).symm.trans hpath
  dsimp only at h
  split at h
  · rename_i hzarr
    obtain ⟨o, ho, h⟩ := bind_ok_iff.mp h
    obtain ⟨metadata, _, h⟩ := bind_ok_iff.mp h
    cases h
    refine ⟨⟨rfl, hrowPath.symm, rfl, rfl⟩, ?_⟩
    intro o' ho'
    cases ho'
    have hne : given (some (pathOf conf row.key)) = some (pathOf conf row.key) := by
      have hlong : pathOf conf row.key ≠ "" := by
        intro hempty
        have hlength := congrArg String.toList hempty
        simp [pathOf] at hlength
      simp [given, hlong]
    obtain ⟨built, hbuilt, hparsed⟩ := parseS3Path_storePath hconf (hproper _ _ hconf)
      (buildObjectKey_key hconf hsound.key)
    cases hbuilt.symm.trans hpath
    have hobject : metadataObject config { row with path := some (pathOf conf row.key) } =
        .ok (conf.bucket, rstripSlash (conf.base ++ row.key) ++ "/zarr.json") := by
      unfold metadataObject
      rw [hne]
      show (Failure.lift (parseS3Path (pathOf conf row.key)) >>= _) = _
      rw [hparsed]
      rfl
    cases ho.symm.trans hobject
    refine ⟨conf, hconf, rfl, .inr ⟨hsound.model ▸ hzarr, "zarr.json", ?_⟩⟩
    dsimp only
    rw [rstripSlash_key hsound.key]
    show conf.base ++ row.key ++ ("/" ++ "zarr.json") = _
    exact String.append_assoc.symm
  · cases h
    exact ⟨⟨rfl, hrowPath.symm, rfl, rfl⟩, by intro _ h; cases h⟩

theorem kept_finish {bucketKey : BucketKey} {store : StoreId} {valid : Bool}
    (hproper : config.Proper) (hkept : Kept config w) :
    Kept config (finishStoreUpload config env w bucketKey store valid).1 := by
  unfold finishStoreUpload
  split
  · exact hkept
  · rename_i row hrow
    obtain ⟨hget, _⟩ := getStore_ok hrow
    split
    · split
      · exact hkept
      · rename_i filled object hfill
        obtain ⟨hsame, hown⟩ := fillInfo_ok hproper (hkept.rows _ _ hget) hfill
        refine kept_modify filled _ hkept hget hsame ?_
        intro f hf
        obtain ⟨o, ho, rfl⟩ : ∃ o, object = some o ∧ Fetched.mk store o.1 o.2 = f := by
          simpa using hf
        exact ⟨rfl, hown o ho⟩
    · have hmodify := kept_modify { row with populated := false } [] hkept hget ⟨rfl, rfl, rfl, rfl⟩
        (by intro _ h; cases h)
      rw [List.append_nil,
        Table.modify_const (f := fun row : StoreRow => { row with populated := false }) hget] at hmodify
      exact hmodify

theorem kept_answer (request : Request) (hproper : config.Proper) (hkept : Kept config w)
    (hkey : IsKey env.uuid) :
    Kept config (w.answer config env request).1 ∧
      ∀ grant, (w.answer config env request).2 = .ok (some grant) →
        Fair config (w.answer config env request).1 ⟨env, request, grant⟩ := by
  have hmap : ∀ {α : Type} {x : Except Failure α} {f : α → Grant} {grant : Grant},
      (x.map fun a => some (f a)) = .ok (some grant) → ∃ a, x = .ok a ∧ grant = f a := by
    intro α x f grant h
    cases x with
    | error e => cases h
    | ok a =>
      cases h
      exact ⟨a, rfl, rfl⟩
  have hupload : ∀ {bucketKey fields maxBytes}, Beside fields →
      request.purpose = some (bucketKey, "upload") → (∀ b s, request ≠ .access b s) →
      Kept config (generateUploadGrant config env w bucketKey fields maxBytes).1 ∧
        ∀ grant, ((generateUploadGrant config env w bucketKey fields maxBytes).2.map
            fun g => some (Grant.upload g)) = .ok (some grant) →
          Fair config (generateUploadGrant config env w bucketKey fields maxBytes).1
            ⟨env, request, grant⟩ := by
    intro bucketKey fields maxBytes hfields hpurpose hnot
    obtain ⟨hkept', hfair⟩ := kept_upload maxBytes hproper hkept hkey hfields hpurpose hnot
    refine ⟨hkept', ?_⟩
    intro grant h
    obtain ⟨g, hg, rfl⟩ := hmap h
    exact hfair g hg
  cases request with
  | mediaUpload input => exact hupload (beside_upload input) rfl (by intro _ _ h; cases h)
  | bigfileUpload input => exact hupload (beside_upload input) rfl (by intro _ _ h; cases h)
  | zarrUpload input => exact hupload (beside_zarr input) rfl (by intro _ _ h; cases h)
  | parquetUpload input => exact hupload (beside_upload input) rfl (by intro _ _ h; cases h)
  | access bucketKey store =>
    refine ⟨hkept, ?_⟩
    intro grant h
    obtain ⟨g, hg, rfl⟩ := hmap h
    exact fair_access hproper hkept hg
  | generalMediaAccess organization =>
    refine ⟨hkept, ?_⟩
    intro grant h
    obtain ⟨g, hg, rfl⟩ := hmap h
    exact fair_general hproper hg
  | readUrl store =>
    refine ⟨hkept, ?_⟩
    intro grant h
    obtain ⟨g, hg, rfl⟩ := hmap h
    unfold grantFileUrl at hg
    split at hg
    · exact absurd hg (generateFileUrl_raises _ _ _ _ _ _ _)
    · cases hg
  | deleteUrl store =>
    refine ⟨hkept, ?_⟩
    intro grant h
    obtain ⟨g, hg, rfl⟩ := hmap h
    unfold grantFileUrl at hg
    split at hg
    · exact absurd hg (generateFileUrl_raises _ _ _ _ _ _ _)
    · cases hg
  | finish bucketKey store valid =>
    refine ⟨kept_finish hproper hkept, ?_⟩
    intro grant h
    have hnone : ∀ x : Except Failure Unit, (x.map fun _ => (none : Option Grant)) ≠ .ok (some grant) := by
      intro x hx
      cases x <;> cases hx
    exact absurd h (hnone _)

theorem kept_step {request : Request} (hproper : config.Proper) (hkept : Kept config w)
    (hkey : IsKey env.uuid) : Kept config (w.step config env request) := by
  obtain ⟨hkept', hfair⟩ := kept_answer request hproper hkept hkey
  unfold World.step
  dsimp only
  split
  · rename_i grant hgrant
    exact kept_hand hkept' (hfair grant hgrant)
  · exact hkept'

theorem kept_run {requests : List (Outside × Request)} (hproper : config.Proper)
    (hkeys : ∀ r ∈ requests, IsKey r.1.uuid) (hkept : Kept config w) :
    Kept config (w.run config requests) := by
  induction requests generalizing w with
  | nil => exact hkept
  | cons r requests ih =>
    exact ih (fun r' hr' => hkeys r' (List.mem_cons_of_mem r hr'))
      (kept_step hproper hkept (hkeys r List.mem_cons_self))

/-- **What credentials reach.** Over every history of requests, whatever STS answers, what is handed
to a client is labelled with the store that it is for, and is good for what the client has asked for
and for nothing else, between a quarter of an hour and half a day, as the grant says: unless the
configuration allows the service's own credentials in their place. Nothing belongs to two stores, and
what the service reads for a store is the store's. -/
theorem credentials_confined (config : SessionConfig) (hproper : config.Proper)
    (hapart : config.Apart) (requests : List (Outside × Request))
    (hkeys : ∀ r ∈ requests, IsKey r.1.uuid) :
    (∀ h ∈ (World.run config {} requests).handed,
      Labelled config (World.run config {} requests) h ∧
        (Unscoped config h.grant.common.credentials ∨
          Confined config (World.run config {} requests) h)) ∧
    (∀ store store' row row', (World.run config {} requests).stores.get store = some row →
      (World.run config {} requests).stores.get store' = some row' → store ≠ store' →
      ∀ bucket name, ¬ (Owns config row bucket name ∧ Owns config row' bucket name)) ∧
    ∀ f ∈ (World.run config {} requests).fetched, ∃ row,
      (World.run config {} requests).stores.get f.store = some row ∧
      Owns config row f.bucket f.key := by
  have hkept := kept_run hproper hkeys (kept_start config)
  refine ⟨hkept.handed, ?_, hkept.fetched⟩
  intro store store' row row' hrow hrow' hne bucket name hboth
  have hsound := hkept.rows _ _ hrow
  have hsound' := hkept.rows _ _ hrow'
  obtain ⟨conf, conf', hconf, hconf', hpaths⟩ :=
    owns_apart hapart hsound.key hsound'.key hboth.1 hboth.2
  obtain ⟨c, hc, hpath⟩ := hsound.path
  obtain ⟨c', hc', hpath'⟩ := hsound'.path
  cases hconf.symm.trans hc
  cases hconf'.symm.trans hc'
  exact hne (hkept.unique _ _ _ _ hrow hrow' (by rw [hpath, hpath', hpaths]))

/-! ## Two uploads -/

def laboratory : SessionConfig where
  toDatalayerConfig := arrays
  roleArn := some "arn:minio:iam:::role/rekuest"

def asked (uuid : String) : Outside where
  uuid := uuid
  sts session := .ok ⟨session.roleSessionName, "", ""⟩

/-- Two arrays are uploaded, and the one is read. -/
def uploads : List (Outside × Request) :=
  [(asked zeros, .zarrUpload {}), (asked ones, .zarrUpload {}), (asked ones, .access .zarr 1)]

theorem uploads_confined : (World.run laboratory {} uploads).handed.length = 3 ∧
    ∀ h ∈ (World.run laboratory {} uploads).handed,
      Confined laboratory (World.run laboratory {} uploads) h := by
  have hconf : ∀ bucketKey conf, getBucketConfig laboratory.toDatalayerConfig bucketKey = .ok conf →
      conf = ⟨"zarr", some "data/"⟩ := by
    intro bucketKey conf h
    cases bucketKey <;> cases h
    rfl
  have hproper : laboratory.Proper := by
    intro bucketKey conf h
    obtain rfl := hconf bucketKey conf h
    constructor
    case bucket => decide
    case separator => decide
    case subpath =>
      intro subpath hsubpath
      cases hsubpath
      decide
  have hapart : laboratory.Apart := by
    intro bucketKey conf arrays h harrays _ key _ hbelow
    obtain rfl := hconf _ _ h
    obtain rfl := hconf _ _ harrays
    have hlength := hbelow.length_le
    simp only [String.toList_append, List.length_append] at hlength
    have hone : "/".toList.length = 1 := rfl
    omega
  have hkeys : ∀ r ∈ uploads, IsKey r.1.uuid := by
    intro r hr
    simp only [uploads, List.mem_cons, List.not_mem_nil, or_false] at hr
    rcases hr with rfl | rfl | rfl <;> decide
  obtain ⟨hhanded, _, _⟩ := credentials_confined laboratory hproper hapart uploads hkeys
  refine ⟨by decide +kernel, ?_⟩
  intro h hmem
  refine (hhanded h hmem).2.resolve_left ?_
  intro hunscoped
  cases hunscoped.1

end Datalayer
end Rekuest
