import Mathlib.Data.List.DropRight
import Rekuest.Store

/-!
# Rekuest.Datalayer

Where the objects of a store are, and the policies of the credentials that are issued for them.

* `buildObjectKey`, `buildStorePath`: the object key of a store, and its canonical URI.
* `parseS3Path`: the bucket and the key of a URI.
* `buildPolicy`: the inline policy of a session that may use the objects of one store.
-/

namespace Rekuest
namespace Datalayer

/-- The logical stores. -/
inductive BucketKey where
  | bigfile | media | zarr | parquet
  deriving DecidableEq, Repr

def BucketKey.name : BucketKey → String
  | .bigfile => "bigfile"
  | .media => "media"
  | .zarr => "zarr"
  | .parquet => "parquet"

structure BucketConfig where
  bucket : String
  subpath : Option String := none

structure DatalayerConfig where
  bigfile : Option BucketConfig := none
  media : Option BucketConfig := none
  zarr : Option BucketConfig := none
  parquet : Option BucketConfig := none

variable (config : DatalayerConfig) (bucketKey : BucketKey) (objectPath : String)

def DatalayerConfig.bucketOf (config : DatalayerConfig) : BucketKey → Option BucketConfig
  | .bigfile => config.bigfile
  | .media => config.media
  | .zarr => config.zarr
  | .parquet => config.parquet

def getBucketConfig : Except Error BucketConfig :=
  match config.bucketOf bucketKey with
  | some conf => .ok conf
  | none => .error (.valueError
      s!"Service/Bucket '{bucketKey.name}' not configured in datalayer.")

/-! ## Keys and paths -/

/-- `s.lstrip("/")`. -/
def lstripSlash (s : String) : String := String.ofList (s.toList.dropWhile (· = '/'))

/-- `s.rstrip("/")`. -/
def rstripSlash (s : String) : String := String.ofList (s.toList.rdropWhile (· = '/'))

def buildObjectKey : Except Error String := do
  let conf ← getBucketConfig config bucketKey
  match conf.subpath with
  | some subpath =>
    if subpath = "" then return lstripSlash objectPath
    else return rstripSlash subpath ++ "/" ++ lstripSlash objectPath
  | none => return lstripSlash objectPath

def buildStorePath : Except Error String := do
  let conf ← getBucketConfig config bucketKey
  let key ← buildObjectKey config bucketKey objectPath
  return "s3://" ++ conf.bucket ++ "/" ++ key

/-- `_parse_s3_path`. -/
def parseS3Path (path : String) : Except Error (String × String) :=
  if "s3://".toList.isPrefixOf path.toList then
    let rest := path.toList.drop 5
    match rest.dropWhile (· ≠ '/') with
    | _ :: key => .ok (String.ofList (rest.takeWhile (· ≠ '/')), String.ofList key)
    | [] => .error (.valueError "not enough values to unpack (expected 2, got 1)")
  else .error (.valueError ("Invalid S3 path: " ++ path))

/-! ## Policies -/

/-- A statement, with a `StringLike` condition on `s3:prefix` where it has one. -/
structure Statement where
  effect : String := "Allow"
  action : List String
  resource : List String
  condition : Option (List String) := none

structure Policy where
  version : String := "2012-10-17"
  statement : List Statement

/-- `_object_resources`: the object key, the resources, and whether listing is needed too. -/
def objectResources : Except Error (String × List String × Bool) := do
  let fullKey ← buildObjectKey config bucketKey objectPath
  match bucketKey with
  | .zarr => return (fullKey, [rstripSlash fullKey, rstripSlash fullKey ++ "/*"], true)
  | _ => return (fullKey, [fullKey], false)

/-- `action_map[action]`. -/
def actionMap (action : String) : Except Error (List String) :=
  if action = "read" then .ok ["s3:GetObject"]
  else if action = "upload" then
    match bucketKey with
    | .zarr => .ok ["s3:GetObject", "s3:PutObject", "s3:DeleteObject", "s3:AbortMultipartUpload"]
    | _ => .ok ["s3:PutObject", "s3:AbortMultipartUpload"]
  else if action = "delete" then .ok ["s3:DeleteObject"]
  else .error (.keyError action)

/-- The name of a bucket, or of an object in it, in policies. -/
def bucketArn (bucketName : String) : String := "arn:aws:s3:::" ++ bucketName

def objectArn (bucketName key : String) : String := bucketArn bucketName ++ "/" ++ key

/-- `_build_policy`. -/
def buildPolicy (bucketName action : String) : Except Error Policy := do
  let (fullKey, resources, allowList) ← objectResources config bucketKey objectPath
  let actions ← actionMap bucketKey action
  let objects : Statement := { action := actions, resource := resources.map (objectArn bucketName) }
  if allowList then
    let listing : Statement := {
      action := ["s3:ListBucket"]
      resource := [bucketArn bucketName]
      condition := some [rstripSlash fullKey, rstripSlash fullKey ++ "/*"] }
    return { statement := [objects, listing] }
  else return { statement := [objects] }

end Datalayer
end Rekuest
