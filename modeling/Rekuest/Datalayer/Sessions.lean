import Rekuest.Datalayer
import Rekuest.Interleave.Table

/-!
# Rekuest.Datalayer.Sessions

The credentials that clients ask for, and the stores that they ask for them.

* `assumeRole`, `unscopedFallback`, `issueTemporaryCredentials`: a session that is bounded by a policy,
  or else the service's own credentials where that is allowed.
* `generateUploadGrant`, `generateAccessGrant`: a new store with the credentials to fill it, and the
  credentials to read a store. Every store type has its own members of these.
* `finishStoreUpload`: an upload is complete.
* `World.run`: the requests of clients, one after the other. A row that was created stays where the
  credentials fail.
-/

namespace Rekuest
namespace Datalayer

open Interleave

/-- `MIN_SESSION_DURATION_SECONDS`. -/
def minSessionDurationSeconds : Int := 900

/-- `MAX_SESSION_DURATION_SECONDS`. -/
def maxSessionDurationSeconds : Int := 43200

structure SessionConfig extends DatalayerConfig where
  roleArn : Option String := none
  externalId : Option String := none
  sessionDurationSeconds : Int := 3600
  allowUnscopedFallback : Bool := false
  accessKey : Option String := none
  secretKey : Option String := none
  sessionToken : Option String := none
  region : String := "us-east-1"
  defaultMaxBytes : BucketKey → Int := fun _ => 100 * 1024 * 1024

structure Credentials where
  accessKey : String
  secretKey : String
  sessionToken : String
  deriving DecidableEq, Repr

/-- The arguments of `assume_role`. -/
structure AssumeRole where
  roleArn : String
  roleSessionName : String
  durationSeconds : Int
  policy : Option Policy
  externalId : Option String

inductive Failure where
  | error (e : Error)
  | runtimeError (message : String)
  | fileNotFound (message : String)
  deriving DecidableEq, Repr

def Failure.lift {α : Type} : Except Error α → Except Failure α
  | .ok a => .ok a
  | .error e => .error (.error e)

structure ZarrMetadata where
  shape : List Int
  chunks : Option (List Int)
  dtype : Option String
  version : String

/-- What a request finds outside: the fresh `uuid4`s of the key and of the session's name, STS, and
the metadata that stands in an object. -/
structure Outside where
  uuid : String
  label : String := ""
  sts : AssumeRole → Except String Credentials
  metadata : String → String → Except Failure ZarrMetadata :=
    fun _ _ => .error (.fileNotFound "Could not find Zarr v3 metadata for store")

abbrev StoreId := Nat

/-- A row of a store. `model` is the class that it is a row of. -/
structure StoreRow where
  model : BucketKey
  path : Option String
  key : String
  bucket : BucketKey
  originalFileName : Option String := none
  contentType : Option String := none
  populated : Bool := false
  shape : Option (List Int) := none
  chunks : Option (List Int) := none
  dtype : Option String := none
  version : Option String := none

variable (config : SessionConfig) (env : Outside)

/-! ## Sessions -/

/-- `_session_duration`. Zero is no duration. -/
def sessionDuration (expiresIn : Option Int) : Int :=
  let requested :=
    match expiresIn with
    | some seconds => if seconds = 0 then config.sessionDurationSeconds else seconds
    | none => config.sessionDurationSeconds
  min (max requested minSessionDurationSeconds) maxSessionDurationSeconds

/-- `_build_general_read_policy`. -/
def buildGeneralReadPolicy (bucketName : String) (bucketKey : BucketKey) : Policy :=
  let objects : Statement := {
    action := ["s3:GetObject"]
    resource := [objectArn bucketName "*"] }
  match bucketKey with
  | .zarr =>
    let listing : Statement := {
      action := ["s3:ListBucket"]
      resource := [bucketArn bucketName] }
    { statement := [objects, listing] }
  | _ => { statement := [objects] }

/-- The text, where there is one that is not empty. -/
def given (text : Option String) : Option String := text.filter (· ≠ "")

/-- `_assume_role`. -/
def assumeRole (action : String) (duration : Int) (policy : Option Policy) :
    Except Failure Credentials :=
  match given config.roleArn with
  | none => .error (.runtimeError
      "`DATALAYER.role_arn` is unset, so there is no role to assume and no scoped credentials can be issued. Against MinIO the value is ignored -- any ARN-shaped string will do -- and the session is scoped by the inline policy alone.")
  | some roleArn =>
    let session : AssumeRole := {
      roleArn := roleArn
      roleSessionName := "rekuest-" ++ action ++ "-" ++ env.label
      durationSeconds := duration
      policy := policy
      externalId := given config.externalId }
    match env.sts session with
    | .ok credentials => .ok credentials
    | .error exc => .error (.runtimeError
        ("STS refused to issue credentials for a `" ++ action ++ "` session (" ++ exc ++ ")."))

/-- The service's own permanent credentials. -/
def SessionConfig.ownCredentials (config : SessionConfig) : Credentials where
  accessKey := config.accessKey.getD ""
  secretKey := config.secretKey.getD ""
  sessionToken := config.sessionToken.getD ""

/-- `_unscoped_fallback`. -/
def unscopedFallback (what : String) : Except Failure Credentials :=
  if config.allowUnscopedFallback then .ok config.ownCredentials
  else .error (.runtimeError ("Could not issue " ++ what ++
    ". Refusing to fall back to this service's own permanent credentials, which are unscoped and never expire; set `DATALAYER.allow_unscoped_fallback` to accept that in development."))

/-- The session, or else the fallback. -/
def orFallback (session : Except Failure Credentials) (what : String) : Except Failure Credentials :=
  match session with
  | .ok credentials => .ok credentials
  | .error _ => unscopedFallback config what

/-- `_issue_temporary_credentials`. -/
def issueTemporaryCredentials (bucketKey : BucketKey) (objectPath action : String)
    (expiresIn : Int) : Except Failure Credentials := do
  let conf ← Failure.lift (getBucketConfig config.toDatalayerConfig bucketKey)
  let duration := sessionDuration config (some expiresIn)
  let policy ← Failure.lift
    (buildPolicy config.toDatalayerConfig bucketKey objectPath conf.bucket action)
  orFallback config (assumeRole config env action duration (some policy))
    ("a `" ++ action ++ "` grant on " ++ bucketKey.name ++ " store " ++ objectPath)

/-- `_issue_temporary_user_access_credentials`. -/
def issueTemporaryUserAccessCredentials (bucketKey : BucketKey) (organization : Nat)
    (expiresIn : Int) : Except Failure Credentials := do
  let conf ← Failure.lift (getBucketConfig config.toDatalayerConfig bucketKey)
  let duration := sessionDuration config (some expiresIn)
  let policy := buildGeneralReadPolicy conf.bucket bucketKey
  orFallback config (assumeRole config env "read" duration (some policy))
    ("a general read grant on " ++ bucketKey.name ++ " for organization " ++ toString organization)

/-! ## Grants -/

/-- What every grant has. -/
structure GeneralAccessGrant where
  status : String := "granted"
  credentials : Credentials
  region : String
  bucket : String
  expiresIn : Int

structure AccessGrant extends GeneralAccessGrant where
  key : String
  path : String
  store : StoreId

structure UploadGrant extends AccessGrant where
  maxBytes : Int
  originalFileName : Option String
  uploadFileName : String
  uploadContentType : Option String
  uploadFormField : String := "file"

inductive Grant where
  | general (grant : GeneralAccessGrant)
  | access (grant : AccessGrant)
  | upload (grant : UploadGrant)

def Grant.common : Grant → GeneralAccessGrant
  | general grant => grant
  | access grant => grant.toGeneralAccessGrant
  | upload grant => grant.toGeneralAccessGrant

/-- The object of a grant for one store. -/
def Grant.scoped? : Grant → Option AccessGrant
  | general _ => none
  | access grant => some grant
  | upload grant => some grant.toAccessGrant

/-- The parts between slashes. -/
def splitSlash (s : String) : List String :=
  (s.toList.splitOn '/').map String.ofList

/-- `PurePosixPath(name).name`. -/
def posixName (name : String) : String :=
  ((splitSlash name).filter fun part => part ≠ "" ∧ part ≠ ".").getLast?.getD ""

/-- `get_upload_file_name`. -/
def StoreRow.getUploadFileName (row : StoreRow) : String :=
  match given row.originalFileName with
  | some name => posixName name
  | none => (splitSlash row.key).getLast?.getD ""

/-- The grant for the objects of one store, as `generate_*_access_grant` fills it. -/
def generateAccessGrant (bucketKey : BucketKey) (action : String) (store : StoreId) (row : StoreRow)
    (expiresIn : Option Int) : Except Failure AccessGrant := do
  let conf ← Failure.lift (getBucketConfig config.toDatalayerConfig bucketKey)
  let ttl := sessionDuration config expiresIn
  let credentials ← issueTemporaryCredentials config env bucketKey row.key action ttl
  let fullKey ← Failure.lift (buildObjectKey config.toDatalayerConfig bucketKey row.key)
  let path ← Failure.lift (buildStorePath config.toDatalayerConfig bucketKey row.key)
  return {
    credentials := credentials
    region := config.region
    bucket := conf.bucket
    expiresIn := ttl
    key := fullKey
    path := path
    store := store }

def generateBigfileAccessGrant (store : StoreId) (row : StoreRow) (expiresIn : Option Int) :=
  generateAccessGrant config env .bigfile "read" store row expiresIn

def generateMediaAccessGrant (store : StoreId) (row : StoreRow) (expiresIn : Option Int) :=
  generateAccessGrant config env .media "read" store row expiresIn

def generateZarrAccessGrant (store : StoreId) (row : StoreRow) (expiresIn : Option Int) :=
  generateAccessGrant config env .zarr "read" store row expiresIn

def generateParquetAccessGrant (store : StoreId) (row : StoreRow) (expiresIn : Option Int) :=
  generateAccessGrant config env .parquet "read" store row expiresIn

/-- `generate_file_read_url` and `generate_file_delete_url`. They fill no `region`, which a grant
requires: with the credentials issued, the grant does not validate. -/
def generateFileUrl (action : String) (bucketKey : BucketKey) (objectPath : String)
    (expiresIn : Option Int) : Except Failure AccessGrant := do
  let _ ← Failure.lift (getBucketConfig config.toDatalayerConfig bucketKey)
  let ttl := sessionDuration config expiresIn
  let _ ← issueTemporaryCredentials config env bucketKey objectPath action ttl
  let _ ← Failure.lift (buildObjectKey config.toDatalayerConfig bucketKey objectPath)
  let _ ← Failure.lift (buildStorePath config.toDatalayerConfig bucketKey objectPath)
  .error (.error .validationError)

def generateFileReadUrl (bucketKey : BucketKey) (objectPath : String) (expiresIn : Option Int) :=
  generateFileUrl config env "read" bucketKey objectPath expiresIn

def generateFileDeleteUrl (bucketKey : BucketKey) (objectPath : String) (expiresIn : Option Int) :=
  generateFileUrl config env "delete" bucketKey objectPath expiresIn

/-- `generate_general_media_access_grant`. -/
def generateGeneralMediaAccessGrant (organization : Nat) (expiresIn : Option Int) :
    Except Failure GeneralAccessGrant := do
  let conf ← Failure.lift (getBucketConfig config.toDatalayerConfig .media)
  let ttl := sessionDuration config expiresIn
  let credentials ← issueTemporaryUserAccessCredentials config env .media organization ttl
  return { credentials := credentials, region := config.region, bucket := conf.bucket, expiresIn := ttl }

/-! ## Requests -/

structure RequestUploadInput where
  originalFileName : String
  fileSize : Option Int := none
  contentType : Option String := none

structure RequestZarrUploadInput where
  shape : Option (List Int) := none
  chunks : Option (List Int) := none
  version : Option String := none

inductive Request where
  | mediaUpload (input : RequestUploadInput)
  | bigfileUpload (input : RequestUploadInput)
  | zarrUpload (input : RequestZarrUploadInput)
  | parquetUpload (input : RequestUploadInput)
  | access (bucketKey : BucketKey) (store : StoreId)
  | generalMediaAccess (organization : Nat)
  | readUrl (store : StoreId)
  | deleteUrl (store : StoreId)
  | finish (bucketKey : BucketKey) (store : StoreId) (valid : Bool)

/-- A grant that a client has been handed. -/
structure Handed where
  env : Outside
  request : Request
  grant : Grant

/-- An object that the service itself has read for a store. -/
structure Fetched where
  store : StoreId
  bucket : String
  key : String

structure World where
  stores : Table StoreRow := Table.empty
  handed : List Handed := []
  fetched : List Fetched := []

variable (w : World)

/-- The unique constraint on paths. -/
def World.taken (path : String) : Bool :=
  !(w.stores.select fun _ row => row.path = some path).isEmpty

/-- `objects.create` of a store, and the grant to fill it, as `generate_*_upload_grant` does it.
`fields` are the fields of the row that the type of the store adds. -/
def generateUploadGrant (bucketKey : BucketKey) (fields : StoreRow → StoreRow) (maxBytes : Int) :
    World × Except Failure UploadGrant :=
  match Failure.lift (buildStorePath config.toDatalayerConfig bucketKey env.uuid) with
  | .error e => (w, .error e)
  | .ok path =>
    if w.taken path then (w, .error (.error .integrityError))
    else
      let row := fields { model := bucketKey, path := some path, key := env.uuid, bucket := bucketKey }
      let grant : Except Failure UploadGrant := do
        let grant ← generateAccessGrant config env bucketKey "upload" w.stores.next row none
        return { grant with
          maxBytes := maxBytes
          originalFileName := row.originalFileName
          uploadFileName := row.getUploadFileName
          uploadContentType := row.contentType }
      ({ w with stores := w.stores.insert row }, grant)

def RequestUploadInput.fields (input : RequestUploadInput) (row : StoreRow) : StoreRow :=
  { row with originalFileName := some input.originalFileName, contentType := input.contentType }

def RequestZarrUploadInput.fields (input : RequestZarrUploadInput) (row : StoreRow) : StoreRow :=
  { row with shape := input.shape, chunks := input.chunks, version := input.version }

/-- `file_size or default_max_bytes`. -/
def maxBytesOr (fileSize : Option Int) (bucketKey : BucketKey) : Int :=
  (fileSize.filter (· ≠ 0)).getD (config.defaultMaxBytes bucketKey)

def generateMediaUploadGrant (input : RequestUploadInput) : World × Except Failure UploadGrant :=
  generateUploadGrant config env w .media input.fields (maxBytesOr config input.fileSize .media)

def generateBigfileUploadGrant (input : RequestUploadInput) : World × Except Failure UploadGrant :=
  generateUploadGrant config env w .bigfile input.fields (maxBytesOr config input.fileSize .bigfile)

def generateZarrUploadGrant (input : RequestZarrUploadInput) : World × Except Failure UploadGrant :=
  generateUploadGrant config env w .zarr input.fields (config.defaultMaxBytes .zarr)

/-- The size of the file is not asked for. -/
def generateParquetUploadGrant (input : RequestUploadInput) : World × Except Failure UploadGrant :=
  generateUploadGrant config env w .parquet input.fields (config.defaultMaxBytes .parquet)

/-- `model_class.objects.get`. -/
def World.getStore (model : BucketKey) (store : StoreId) : Except Failure StoreRow :=
  match (w.stores.get store).filter (·.model = model) with
  | some row => .ok row
  | none => .error (.error (.doesNotExist model.name))

/-- `request_*_access`. -/
def requestAccess (bucketKey : BucketKey) (store : StoreId) : Except Failure AccessGrant := do
  let row ← w.getStore bucketKey store
  match bucketKey with
  | .bigfile => generateBigfileAccessGrant config env store row none
  | .media => generateMediaAccessGrant config env store row none
  | .zarr => generateZarrAccessGrant config env store row none
  | .parquet => generateParquetAccessGrant config env store row none

/-- `DatalayerStore.grant_read_access` and `grant_delete_access`. -/
def grantFileUrl (generate : BucketKey → String → Option Int → Except Failure AccessGrant)
    (store : StoreId) : Except Failure AccessGrant :=
  match w.stores.get store with
  | some row => generate row.bucket row.key none
  | none => .error (.error (.doesNotExist "DatalayerStore"))

/-- Where `get_zarr_metadata` reads. -/
def metadataObject (row : StoreRow) : Except Failure (String × String) := do
  let path ←
    match given row.path with
    | some path => Except.ok path
    | none => Failure.lift (buildStorePath config.toDatalayerConfig .zarr row.key)
  let (bucketName, start) ← Failure.lift (parseS3Path path)
  return (bucketName, rstripSlash start ++ "/zarr.json")

/-- `fill_info`, and what it reads. -/
def fillInfo (row : StoreRow) : Except Failure (StoreRow × Option (String × String)) := do
  let path ← Failure.lift (buildStorePath config.toDatalayerConfig row.bucket row.key)
  let row := { row with path := some path }
  match row.model with
  | .zarr =>
    let object ← metadataObject config row
    let metadata ← env.metadata object.1 object.2
    let row := { row with
      shape := some metadata.shape, chunks := metadata.chunks, dtype := metadata.dtype
      version := some metadata.version, populated := true }
    return (row, some object)
  | _ => return ({ row with populated := true }, none)

/-- `_finish_store_upload`. -/
def finishStoreUpload (bucketKey : BucketKey) (store : StoreId) (valid : Bool) :
    World × Except Failure Unit :=
  match w.getStore bucketKey store with
  | .error e => (w, .error e)
  | .ok row =>
    if valid then
      match fillInfo config env row with
      | .error e => (w, .error e)
      | .ok (filled, object) =>
        ({ w with
            stores := w.stores.modify store fun _ => filled
            fetched := w.fetched ++ (object.map fun o => Fetched.mk store o.1 o.2).toList }, .ok ())
    else ({ w with stores := w.stores.modify store fun row => { row with populated := false } }, .ok ())

/-- A request is answered, with a grant where it asks for one. -/
def World.answer : Request → World × Except Failure (Option Grant)
  | .mediaUpload input =>
    let (w, grant) := generateMediaUploadGrant config env w input
    (w, grant.map fun g => some (.upload g))
  | .bigfileUpload input =>
    let (w, grant) := generateBigfileUploadGrant config env w input
    (w, grant.map fun g => some (.upload g))
  | .zarrUpload input =>
    let (w, grant) := generateZarrUploadGrant config env w input
    (w, grant.map fun g => some (.upload g))
  | .parquetUpload input =>
    let (w, grant) := generateParquetUploadGrant config env w input
    (w, grant.map fun g => some (.upload g))
  | .access bucketKey store =>
    (w, (requestAccess config env w bucketKey store).map fun g => some (.access g))
  | .generalMediaAccess organization =>
    (w, (generateGeneralMediaAccessGrant config env organization none).map fun g => some (.general g))
  | .readUrl store =>
    (w, (grantFileUrl w (generateFileReadUrl config env) store).map fun g => some (.access g))
  | .deleteUrl store =>
    (w, (grantFileUrl w (generateFileDeleteUrl config env) store).map fun g => some (.access g))
  | .finish bucketKey store valid =>
    let (w, done) := finishStoreUpload config env w bucketKey store valid
    (w, done.map fun _ => none)

/-- The client gets what is answered. -/
def World.step (request : Request) : World :=
  let (w, answer) := w.answer config env request
  match answer with
  | .ok (some grant) => { w with handed := w.handed ++ [⟨env, request, grant⟩] }
  | _ => w

/-- The requests of clients, one after the other. -/
def World.run (w : World) (requests : List (Outside × Request)) : World :=
  requests.foldl (fun w r => w.step config r.1 r.2) w

end Datalayer
end Rekuest
