import Rekuest.Canonical
import Rekuest.Store

/-!
# Rekuest.Descriptors

The compilation of the requirements and provisions of a port into a JSONPath predicate.

* `dumpsAscii`: `json.dumps` without options.
* `compileDescriptors`: the predicate of a list of descriptors, or the error of one of them.
-/

namespace Rekuest
namespace Descriptors

/-! ## `json.dumps` -/

def unicodeEscape (n : Nat) : List Char :=
  '\\' :: 'u' :: [n / 0x1000, n / 0x100 % 16, n / 16 % 16, n % 16].map Nat.digitChar

/-- `ESCAPE_ASCII`: like the characters that are always escaped, and what is not ASCII as one or
two UTF-16 units. -/
def escapeAscii (c : Char) : List Char :=
  if c.toNat < 127 then Canonical.escapeChar c
  else if c.toNat < 0x10000 then unicodeEscape c.toNat
  else unicodeEscape (0xd800 + (c.toNat - 0x10000) / 0x400) ++
    unicodeEscape (0xdc00 + (c.toNat - 0x10000) % 0x400)

def quoteAscii (s : String) : List Char := '"' :: (s.toList.flatMap escapeAscii ++ ['"'])

/-- Items between commas and blanks. -/
def spaced : List (List Char) → List Char
  | [] => []
  | [item] => item
  | item :: items => item ++ ',' :: ' ' :: spaced items

mutual
def dumpsAscii : Json → List Char
  | .null => "null".toList
  | .bool true => "true".toList
  | .bool false => "false".toList
  | .num n => Canonical.decimal n
  | .float x => x.text.toList
  | .str s => quoteAscii s
  | .arr items => '[' :: (spaced (dumpsItems items) ++ [']'])
  | .obj members => '\x7b' :: (spaced (dumpsMembers members) ++ ['\x7d'])

def dumpsItems : List Json → List (List Char)
  | [] => []
  | v :: vs => dumpsAscii v :: dumpsItems vs

def dumpsMembers : Dict Json → List (List Char)
  | [] => []
  | (key, v) :: members => (quoteAscii key ++ ':' :: ' ' :: dumpsAscii v) :: dumpsMembers members
end

/-! ## Keys -/

def isWordChar (c : Char) : Bool :=
  ('A' ≤ c && c ≤ 'Z') || ('a' ≤ c && c ≤ 'z') || ('0' ≤ c && c ≤ '9') || c = '_'

/-- Words with dots between them; `$` also matches before a last line feed. -/
def matchesKey (raw : List Char) : Bool :=
  let body := if raw.getLast? = some '\n' then raw.dropLast else raw
  (body.splitOn '.').all fun word => !word.isEmpty && word.all isWordChar

/-- `_normalize_jsonpath_key`. -/
def normalizeJsonpathKey (key : String) : Except Error (List Char) :=
  let raw := if "$.".toList.isPrefixOf key.toList then key.toList.drop 2 else key.toList
  if matchesKey raw then .ok ('$' :: '.' :: raw)
  else .error (.valueError s!"Invalid descriptor key for JSONPath compilation: {key}")

/-! ## Predicates -/

/-- Alternatives in parentheses, or the word for none. -/
def alternatives (operator none : String) (parts : List (List Char)) : List Char :=
  if parts.isEmpty then '(' :: (none.toList ++ [')'])
  else '(' :: (List.intercalate operator.toList parts ++ [')'])

/-- `_compile_descriptor_condition`. -/
def compileCondition (desc : Descriptor) : Except Error (List Char) := do
  let path ← normalizeJsonpathKey desc.key
  let formatted := dumpsAscii desc.value
  match desc.operator with
  | .existence =>
    match desc.value with
    | .bool true => return "exists(".toList ++ path ++ [')']
    | .bool false => return "!(exists(".toList ++ path ++ "))".toList
    | _ => .error (.valueError
        "Operator EXISTS requires a boolean value (True = must exist, False = must not exist)")
  | .matches => return path ++ " == ".toList ++ formatted
  | .equals => return path ++ " == ".toList ++ formatted
  | .notEquals => return path ++ " != ".toList ++ formatted
  | .gte => return path ++ " >= ".toList ++ formatted
  | .lte => return path ++ " <= ".toList ++ formatted
  | .contains => return path ++ "[*] == ".toList ++ formatted
  | .isIn =>
    match desc.value with
    | .arr items =>
      return alternatives " || " "false" (items.map fun v => path ++ " == ".toList ++ dumpsAscii v)
    | _ => .error (.valueError "Operator IN requires a list value")
  | .notIn =>
    match desc.value with
    | .arr items =>
      return alternatives " && " "true" (items.map fun v => path ++ " != ".toList ++ dumpsAscii v)
    | _ => .error (.valueError "Operator NOT_IN requires a list value")

/-- `compile_descriptors_to_jsonpath`, for requirements and for provisions. -/
def compileDescriptors (descriptors : List Descriptor) : Except Error (Option String) := do
  if descriptors.isEmpty then return none
  else
    let parts ← descriptors.mapM compileCondition
    return some (String.ofList (List.intercalate " && ".toList parts))

example : compileDescriptors [⟨"axes", .equals, .str "c"⟩, ⟨"$.size", .isIn, .arr [.num 1, .num 2]⟩] =
    .ok (some "$.axes == \"c\" && ($.size == 1 || $.size == 2)") := by rfl

end Descriptors
end Rekuest
