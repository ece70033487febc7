import Rekuest.Coding.Names
import Rekuest.Descriptors
import Rekuest.Models.Definitions
import Rekuest.Sql.Identifiers
import Rekuest.Sql.Placeholders

/-!
# Rekuest.Managers

The statements that search actions, shortcuts and states by the ports they have.

* `PortMatch`: what a port has to look like. `PortDemand`, `ActionDemandInput`: what is demanded.
* `buildMatchExists`: the relational matcher, a correlated subquery for each match of a tree.
* `portDemandSql`, `getActionIdsByActionDemands`: several demands in one statement.
* `toPositional`: a statement with numbered placeholders.
* `jsonScanParams`, `buildStateParams`: the legacy scanner of JSON arrays, and what it refuses.
-/

namespace Rekuest

def PortKind.value : PortKind → String
  | int => "INT"
  | string => "STRING"
  | struct => "STRUCTURE"
  | list => "LIST"
  | bool => "BOOL"
  | dict => "DICT"
  | float => "FLOAT"
  | date => "DATE"
  | union => "UNION"
  | enum => "ENUM"
  | model => "MODEL"
  | memoryStructure => "MEMORY_STRUCTURE"
  | interface => "INTERFACE"
  | quantity => "QUANTITY"

/-! ## Values and operators -/

/-- A value of a column or a parameter. -/
inductive SqlValue where
  | int (n : Int)
  | text (s : String)
  | bool (b : Bool)
  | json (j : Json)

/-- `=`. No statement compares documents. -/
def SqlValue.equal : SqlValue → SqlValue → Bool
  | int m, int n => m = n
  | text s, text t => s = t
  | bool a, bool b => a = b
  | _, _ => false

/-- A JSON value as text: `null` is `NULL`. -/
def Json.asText : Json → Option String
  | .null => none
  | .str s => some s
  | j => some (String.ofList (Descriptors.dumpsAscii j))

/-- `j->key`. -/
def Json.field (key : String) : Json → Option Json
  | .obj members => Dict.get? members key
  | _ => none

/-- `j->n`. -/
def Json.element (n : Nat) : Json → Option Json
  | .arr items => items[n]?
  | _ => none

/-- `j->>key`. -/
def Json.textField (key : String) (j : Json) : Option String := (j.field key).bind asText

namespace Managers

open Coding Sql

inductive JsonOp where
  | field (key : String)
  | textField (key : String)
  | element (n : Nat)
  | arrayLength

inductive JsonTest where
  | pathMatch

def JsonOp.apply : JsonOp → SqlValue → Option SqlValue
  | field key, .json j => (j.field key).map .json
  | textField key, .json j => (j.textField key).map .text
  | element n, .json j => (j.element n).map .json
  | arrayLength, .json (.arr items) => some (.int items.length)
  | _, _ => none

/-- What stands behind the operand. The literal `'nullable'` is cast. -/
def JsonOp.write : JsonOp → String × String
  | field key => ("", "->'" ++ key ++ "'")
  | textField key => ("", "->>'" ++ key ++ if key = "nullable" then "'::text" else "'")
  | element n => ("", "->" ++ toString n)
  | arrayLength => ("jsonb_array_length(", ")")

def SqlValue.write : SqlValue → String
  | .int n => toString n
  | .text s => "'" ++ s ++ "'"
  | .bool b => toString b
  | .json _ => ""

/-- The statements' dialect. `jsonb_path_match` is a parameter: of a candidate and of a path. -/
def postgres (pathMatch : String → String → Option Bool) : Dialect JsonOp JsonTest SqlValue where
  equal := SqlValue.equal
  apply := JsonOp.apply
  test
    | .pathMatch, .text candidate, .text path => pathMatch candidate path
    | .pathMatch, _, _ => none
  count n := .int n
  items
    | .json (.arr items) => items.map .json
    | _ => []
  writeConst := SqlValue.write
  writeOp := JsonOp.write
  writeTest
    | .pathMatch => ("jsonb_path_match(", "::jsonb, ", "::jsonpath, '\x7b\x7d'::jsonb, true)")

abbrev Clause := Cond JsonOp JsonTest SqlValue

abbrev Operand := Term JsonOp SqlValue

/-! ## Matches -/

/-- A runtime descriptor of a candidate object. -/
structure MatchDescriptor where
  key : String
  value : Json

/-- `PortMatchInput`. Descriptors and children that are absent are read as empty ones. -/
structure PortMatch where
  at_ : Option Int := none
  key : Option String := none
  kind : Option PortKind := none
  identifier : Option String := none
  nullable : Option Bool := none
  dimension : Option String := none
  descriptors : List MatchDescriptor := []
  children : List PortMatch := []

/-- The messages of the `ValueError`s. A demand that is named in one is written by `repr`. -/
inductive ValueError where
  | descriptorOnly
  | notArgsOrReturns
  | noSearchParams (about : String)
  | descriptorsUnsupported (model : String)
  | nullableUnsupported (model : String)
  deriving DecidableEq

def ValueError.message : ValueError → String
  | descriptorOnly =>
    "A root port match with descriptors must also narrow structurally (identifier, kind, key, at " ++
      "or dimension) — descriptor-only matches would scan every port in the organization."
  | notArgsOrReturns => "Type must be either 'args' or 'returns'"
  | noSearchParams about => "No search params provided" ++ about
  | descriptorsUnsupported model =>
    "Descriptor matching (requires/provides) is not supported for " ++ model ++ ": only Actions " ++
      "have relational port rows with compiled constraints. Remove 'descriptors' from the demand."
  | nullableUnsupported model =>
    "'nullable' matching is not supported for " ++ model ++ ": the legacy JSONB scanner only " ++
      "compares key/kind/identifier. Remove 'nullable' from the demand."

/-- Conditions, and the parameters that were set for them, in this order. -/
structure Built where
  conditions : List Clause := []
  assigned : List (String × SqlValue) := []

namespace Built

def append (b c : Built) : Built := ⟨b.conditions ++ c.conditions, b.assigned ++ c.assigned⟩

instance : Append Built := ⟨append⟩

@[simp] theorem append_conditions (b c : Built) :
    (b ++ c).conditions = b.conditions ++ c.conditions := rfl

@[simp] theorem append_assigned (b c : Built) : (b ++ c).assigned = b.assigned ++ c.assigned := rfl

/-- A condition with its own parameter. -/
def one (condition : Clause) (key : String) (value : SqlValue) : Built :=
  ⟨[condition], [(key, value)]⟩

def concat (bs : List Built) : Built := bs.foldr append {}

@[simp] theorem concat_conditions (bs : List Built) :
    (concat bs).conditions = bs.flatMap conditions := by
  induction bs with
  | nil => rfl
  | cons b bs ih => rw [List.flatMap_cons, ← ih]; rfl

@[simp] theorem concat_assigned (bs : List Built) : (concat bs).assigned = bs.flatMap assigned := by
  induction bs with
  | nil => rfl
  | cons b bs ih => rw [List.flatMap_cons, ← ih]; rfl

end Built

/-- The dictionary of the parameters. -/
def Built.params (b : Built) : Dict SqlValue := Dict.update [] b.assigned

/-! ## The relational matcher -/

/-- `PORT_TABLE`. -/
def portTable : String → Option String
  | "args" => some "facade_argport"
  | "returns" => some "facade_returnport"
  | _ => none

/-- A structural field of a match: the tag of its parameter, its column, its value if it is set. -/
structure StructuralField where
  tag : String
  column : String
  value : Option SqlValue

/-- The fields in the order of their conditions. -/
def PortMatch.structuralFields (m : PortMatch) : List StructuralField :=
  [⟨"at", "index", m.at_.map .int⟩,
   ⟨"key", "key", m.key.map .text⟩,
   ⟨"kind", "kind", m.kind.map fun k => .text k.value⟩,
   ⟨"ident", "identifier", m.identifier.map .text⟩,
   ⟨"dim", "dimension", m.dimension.map .text⟩,
   ⟨"null", "nullable", m.nullable.map .bool⟩]

/-- `{label}.{column} = %({tag}_{id_path})s`, where the field is set. -/
def StructuralField.build (label idPath : String) (f : StructuralField) : Built :=
  match f.value with
  | none => {}
  | some value =>
    .one (.eq (.column label f.column) (.param (snake f.tag idPath))) (snake f.tag idPath) value

/-- The candidate that the descriptors describe. Of duplicate keys the last wins. -/
def PortMatch.candidateObject (m : PortMatch) : String :=
  String.ofList (Descriptors.dumpsAscii
    (.obj (Dict.update [] (m.descriptors.map fun d => (d.key, d.value)))))

def PortMatch.buildDescriptors (label idPath : String) (m : PortMatch) : Built :=
  if m.descriptors.isEmpty then {}
  else
    .one (.or (.isNull (.column label "compiled_jsonpath"))
      (.test .pathMatch (.param (snake "obj" idPath)) (.column label "compiled_jsonpath")))
      (snake "obj" idPath) (.text m.candidateObject)

/-- `any(value is not None for value in (at, key, kind, identifier, dimension))`. -/
def PortMatch.hasStructuralNarrowing (m : PortMatch) : Bool :=
  m.at_.isSome || m.key.isSome || m.kind.isSome || m.identifier.isSome || m.dimension.isSome

/-- How the rows of a match hang together: roots with the action, others with their parent. -/
def correlated (actionLabel label : String) : Option String → List Clause
  | none =>
    [.eq (.column label "action_id") (.column actionLabel "id"),
      .isNull (.column label "parent_id")]
  | some parentLabel => [.eq (.column label "parent_id") (.column parentLabel "id")]

mutual
/-- `_build_match_exists`: one clause, and the parameters that are set for it. -/
def buildMatchExists (table actionLabel : String) (parentLabel : Option String)
    (idPath : String) : PortMatch → Except ValueError Built
  | m@⟨_, _, _, _, _, _, _, children⟩ => do
    let label := snake "p" idPath
    if !m.descriptors.isEmpty && parentLabel.isNone && !m.hasStructuralNarrowing then
      throw .descriptorOnly
    let nested ← buildChildren table actionLabel label idPath 0 children
    let inner := ⟨correlated actionLabel label parentLabel, []⟩ ++
      Built.concat (m.structuralFields.map (StructuralField.build label idPath)) ++
      m.buildDescriptors label idPath ++ nested
    return ⟨[.exists_ (.table table label) inner.conditions], inner.assigned⟩

def buildChildren (table actionLabel label idPath : String) (childIndex : Nat) :
    List PortMatch → Except ValueError Built
  | [] => return {}
  | child :: children => do
    let first ← buildMatchExists table actionLabel (some label)
      (snake idPath (toString childIndex)) child
    let others ← buildChildren table actionLabel label idPath (childIndex + 1) children
    return first ++ others
end

/-! ## Port demands -/

/-- `PortDemandInput`. -/
structure PortDemand where
  kind : String
  matches_ : List PortMatch := []
  forceLength : Option Int := none
  forceNonNullableLength : Option Int := none
  forceStructureLength : Option Int := none

/-- `(SELECT COUNT(*) ...) = N` over the root ports of an action. -/
def rootCountSubquery (table actionLabel : String) (extraCondition : Clause) (paramKey : String)
    (value : Int) : Built :=
  .one (.count (.table table "pc")
    [.eq (.column "pc" "action_id") (.column actionLabel "id"), .isNull (.column "pc" "parent_id"),
      extraCondition] (.param paramKey)) paramKey (.int value)

/-- The clauses of matches, each under the path of its place. -/
def buildMatches (table actionLabel idPath : String) (index : Nat) :
    List PortMatch → Except ValueError Built
  | [] => return {}
  | m :: ms => do
    let first ← buildMatchExists table actionLabel none (snake idPath (toString index)) m
    let others ← buildMatches table actionLabel idPath (index + 1) ms
    return first ++ others

/-- What is set becomes a condition. -/
def whereSet {α : Type} (value : Option α) (build : α → Built) : Built := value.elim {} build

/-- The clauses of one demand. -/
def portDemandClauses (demandIndex : Nat) (demand : PortDemand) : Except ValueError Built := do
  let some table := portTable demand.kind | throw .notArgsOrReturns
  let i := toString demandIndex
  let found ← buildMatches table "a" i 0 demand.matches_
  let column := if table = "facade_argport" then "arg_count" else "return_count"
  return found ++
    whereSet demand.forceLength (fun n =>
      .one (.eq (.column "a" column) (.param (snake "force_length" i))) (snake "force_length" i)
        (.int n)) ++
    whereSet demand.forceNonNullableLength
      (rootCountSubquery table "a" (.eq (.column "pc" "nullable") (.const (.bool false)))
        (snake "force_non_nullable" i)) ++
    whereSet demand.forceStructureLength
      (rootCountSubquery table "a" (.eq (.column "pc" "kind") (.const (.text "STRUCTURE")))
        (snake "force_structure" i))

def allPortDemandClauses (demandIndex : Nat) : List PortDemand → Except ValueError Built
  | [] => return {}
  | demand :: demands => do
    let first ← portDemandClauses demandIndex demand
    let others ← allPortDemandClauses (demandIndex + 1) demands
    return first ++ others

/-- `if not clauses: raise ValueError(...)`. -/
def requireClauses (about : String) (b : Built) : Except ValueError Built :=
  if b.conditions.isEmpty then throw (.noSearchParams about) else return b

def organizationClause (organizationId : SqlValue) : Built :=
  .one (.eq (.column "a" "organization_id") (.param "org")) "org" organizationId

/-- `_port_demand_sql`: the conditions behind `SELECT a.id FROM facade_action a WHERE`. -/
def portDemandSql (demands : List PortDemand) (organizationId : Option SqlValue) :
    Except ValueError Built := do
  let clauses ← allPortDemandClauses 0 demands
  requireClauses "" (whereSet organizationId organizationClause ++ clauses)

/-- The text of the statement, in pieces. -/
def portDemandPieces (D : Dialect JsonOp JsonTest SqlValue) (b : Built) : List Piece :=
  .raw "SELECT a.id FROM facade_action a WHERE " :: Cond.allPieces D b.conditions

/-- `_to_positional`. -/
def toPositional (sql : List Char) (params : Dict SqlValue) : Option (List Char × List SqlValue) :=
  ((findall sql).mapM params.get?).map fun values => (sub ['%', 's'] sql, values)

/-- `SELECT {label}.id FROM {table} {label} WHERE ...`: a column is `NULL` where the row has none. -/
def selectIds (D : Dialect JsonOp JsonTest SqlValue) (db : String → List (Row SqlValue))
    (params : Dict SqlValue) (table label : String) (conditions : List Clause) :
    List (Option SqlValue) :=
  ((db table).filter fun row =>
    Cond.evalAll D db params.get? [(label, row)] conditions == some true).map fun row => row "id"

/-- The conditions as PostgreSQL reads them: of an identifier it keeps 63 bytes. All of them are of
one byte a character. -/
abbrev asRead (conditions : List Clause) : List Clause := Cond.renamedAll (clip 63) conditions

/-- `get_action_ids_by_port_demands`, of actions. -/
def getActionIdsByPortDemands (D : Dialect JsonOp JsonTest SqlValue)
    (db : String → List (Row SqlValue)) (demands : List PortDemand)
    (organizationId : Option SqlValue) : Except ValueError (List (Option SqlValue)) := do
  let b ← portDemandSql demands organizationId
  return selectIds D db b.params "facade_action" "a" (asRead b.conditions)

/-! ## Action demands -/

/-- `ActionDemandInput`. -/
structure ActionDemandInput where
  hash : Option String := none
  key : Option String := none
  app : Option String := none
  version : Option String := none
  name : Option String := none
  argMatches : List PortMatch := []
  returnMatches : List PortMatch := []
  protocols : List String := []
  forceArgLength : Option Int := none
  forceReturnLength : Option Int := none
  pure_ : Option Bool := none
  idempotent : Option Bool := none
  stateful : Option Bool := none

/-- An empty text is falsy. -/
def truthy (s : Option String) : Option String := s.filter (· ≠ "")

/-- `{action_alias}.{column} = %({prefix}_{tag})s`. -/
def actionColumn (pre tag column : String) (value : SqlValue) : Built :=
  .one (.eq (.column "a" column) (.param (snake pre tag))) (snake pre tag) value

/-- The app of the action, by its identifier. -/
def appClause (pre app : String) : Built :=
  .one (.isIn (.column "a" "app_id") (.bare "id") (.table "authentikate_app" "authentikate_app")
    [.eq (.bare "identifier") (.param (snake pre "app"))]) (snake pre "app") (.text app)

def protocolClause (pre : String) (protocolIndex : Nat) (protocolName : String) : Built :=
  let key := snake (snake pre "protocol") (toString protocolIndex)
  .one (.exists_ (.join "facade_action_protocols" (snake "ap" key) "facade_protocol" (snake "p" key)
      (.column (snake "p" key) "id") (.column (snake "ap" key) "protocol_id"))
    [.eq (.column (snake "ap" key) "action_id") (.column "a" "id"),
      .eq (.column (snake "p" key) "name") (.param key)]) key (.text protocolName)

def protocolClauses (pre : String) (protocols : List String) : Built :=
  Built.concat (protocols.zipIdx.map fun p => protocolClause pre p.2 p.1)

/-- The clauses of a demand: those of its hash, or else those of its other fields. -/
def demandConditions (demand : ActionDemandInput) (pre : String) : Except ValueError Built :=
  match truthy demand.hash with
  | some hash => return actionColumn pre "hash" "hash" (.text hash)
  | none => do
    let args ← buildMatches "facade_argport" "a" (snake pre "arg") 0 demand.argMatches
    let returns ← buildMatches "facade_returnport" "a" (snake pre "ret") 0 demand.returnMatches
    return whereSet (truthy demand.key) (fun s => actionColumn pre "key" "key" (.text s)) ++
      whereSet (truthy demand.app) (appClause pre) ++
      whereSet (truthy demand.version) (fun s => actionColumn pre "version" "version" (.text s)) ++
      whereSet (truthy demand.name) (fun s => actionColumn pre "name" "name" (.text s)) ++
      args ++ returns ++
      whereSet demand.forceArgLength
        (fun n => actionColumn pre "force_arg_length" "arg_count" (.int n)) ++
      whereSet demand.forceReturnLength
        (fun n => actionColumn pre "force_return_length" "return_count" (.int n)) ++
      protocolClauses pre demand.protocols ++
      whereSet demand.pure_ (fun v => actionColumn pre "pure" "pure" (.bool v)) ++
      whereSet demand.idempotent (fun v => actionColumn pre "idempotent" "idempotent" (.bool v)) ++
      whereSet demand.stateful (fun v => actionColumn pre "stateful" "stateful" (.bool v))

/-- `_action_demand_clauses`. A demand that is refused is written by `repr`. -/
def actionDemandClauses (repr : ActionDemandInput → String) (demand : ActionDemandInput)
    (pre : String) : Except ValueError Built := do
  let b ← demandConditions demand pre
  requireClauses (" " ++ repr demand) b

/-- The clauses of each demand, from a place on. -/
def allActionDemandClauses (repr : ActionDemandInput → String) (index : Nat) :
    List ActionDemandInput → Except ValueError (List Built)
  | [] => return []
  | demand :: demands => do
    let first ← actionDemandClauses repr demand ("d" ++ toString index)
    let others ← allActionDemandClauses repr (index + 1) demands
    return first :: others

/-- The statement of `get_action_ids_by_action_demands`: the conditions of each `SELECT` of the
`UNION ALL`, and the parameters of all. -/
def actionDemandsSql (repr : ActionDemandInput → String) (demands : List ActionDemandInput)
    (organizationId : Option SqlValue) : Except ValueError (List (List Clause) × Dict SqlValue) := do
  let built ← allActionDemandClauses repr 0 demands
  let org := whereSet organizationId organizationClause
  return (built.map fun b => org.conditions ++ b.conditions,
    Dict.update [] (org.assigned ++ built.flatMap Built.assigned))

/-- The text of the statement, in pieces. The place of a demand is written into its `SELECT`. -/
def actionDemandsPieces (D : Dialect JsonOp JsonTest SqlValue) (index : Nat) :
    List (List Clause) → List Piece
  | [] => []
  | [conditions] =>
    .raw ("SELECT " ++ toString index ++ " AS demand_index, a.id FROM facade_action a WHERE ") ::
      Cond.allPieces D conditions
  | conditions :: selects =>
    .raw ("SELECT " ++ toString index ++ " AS demand_index, a.id FROM facade_action a WHERE ") ::
      (Cond.allPieces D conditions ++
        .raw "\nUNION ALL\n" :: actionDemandsPieces D (index + 1) selects)

/-- The rows of the `UNION ALL`: the place of a demand, and the id of an action. -/
def actionDemandRows (D : Dialect JsonOp JsonTest SqlValue) (db : String → List (Row SqlValue))
    (selects : List (List Clause)) (params : Dict SqlValue) : List (Nat × Option SqlValue) :=
  selects.zipIdx.flatMap fun p =>
    (selectIds D db params "facade_action" "a" (asRead p.1)).map fun id => (p.2, id)

/-- `results[demand_index].append(action_id)`, row by row. -/
def collectRows {α : Type} (results : List (List α)) (rows : List (Nat × α)) : List (List α) :=
  rows.foldl (fun results row => results.modify row.1 (· ++ [row.2])) results

/-- `get_action_ids_by_action_demands`. The server gives the rows in an order of its own. -/
def getActionIdsByActionDemands (D : Dialect JsonOp JsonTest SqlValue)
    (db : String → List (Row SqlValue))
    (order : List (Nat × Option SqlValue) → List (Nat × Option SqlValue))
    (repr : ActionDemandInput → String) (demands : List ActionDemandInput)
    (organizationId : Option SqlValue) : Except ValueError (List (List (Option SqlValue))) := do
  let (selects, params) ← actionDemandsSql repr demands organizationId
  if selects.isEmpty then return []
  return collectRows (demands.map fun _ => []) (order (actionDemandRows D db selects params))

/-! ## The legacy scanner -/

mutual
/-- `_reject_unsupported_legacy_match_fields`, of one match. -/
def rejectUnsupportedMatch (model : String) : PortMatch → Except ValueError Unit
  | m@⟨_, _, _, _, _, _, _, children⟩ => do
    if !m.descriptors.isEmpty then throw (.descriptorsUnsupported model)
    if m.nullable.isSome then throw (.nullableUnsupported model)
    rejectUnsupportedLegacyMatchFields model children

def rejectUnsupportedLegacyMatchFields (model : String) : List PortMatch → Except ValueError Unit
  | [] => return ()
  | m :: ms => do
    rejectUnsupportedMatch model m
    rejectUnsupportedLegacyMatchFields model ms
end

/-- The fields that the scanner compares, where they are truthy. -/
def PortMatch.legacyFields (m : PortMatch) : List (String × Option String) :=
  [("key", truthy m.key), ("kind", m.kind.map PortKind.value), ("identifier", truthy m.identifier)]

/-- `build_child_recursively`, which does not recur. -/
def buildChild (item : PortMatch) (pre : Operand) (valuePath : String) : Built :=
  Built.concat (item.legacyFields.map fun f => whereSet f.2 fun v =>
    .one (.eq (.app (.textField f.1) pre) (.param (snake valuePath f.1))) (snake valuePath f.1)
      (.text v))

/-- `build_sql_for_item_recursive`. The child at `idx` is compared with the element `idx + 1`. -/
def buildSqlForItem (item : PortMatch) (index : Nat) (atValue : Option Int) (pre : String) : Built :=
  let i := toString index
  whereSet atValue (fun n =>
    .one (.eq (.bare "idx") (.param (snake (snake pre "at") i))) (snake (snake pre "at") i)
      (.int (n + 1))) ++
  Built.concat (item.legacyFields.map fun f => whereSet f.2 fun v =>
    .one (.eq (.app (.textField f.1) (.bare "item")) (.param (snake (snake pre f.1) i)))
      (snake (snake pre f.1) i) (.text v)) ++
  Built.concat (item.children.zipIdx.map fun c =>
    buildChild c.1 (.app (.element (c.2 + 1)) (.app (.field "children") (.bare "item")))
      (snake (snake "children" i) (toString c.2)))

/-- A subquery over the items of an array. -/
def buildItemQuery (array : String) (item : PortMatch) (index : Nat) : Built :=
  let b := buildSqlForItem item index item.at_ "arg"
  ⟨[.exists_ (.elements (.bare array) "j" "item" (some "idx")) b.conditions], b.assigned⟩

def buildItemQueries (array : String) (items : List PortMatch) : Built :=
  Built.concat (items.zipIdx.map fun p => buildItemQuery array p.1 p.2)

/-- `(SELECT COUNT(*) FROM jsonb_array_elements(...) AS j(item) WHERE ...) = n`. -/
def countItems (array field value : String) (n : Int) : Clause :=
  .count (.elements (.bare array) "j" "item" none)
    [.eq (.app (.textField field) (.bare "item")) (.const (.text value))] (.const (.int n))

/-- `_json_scan_params`: the conditions behind `SELECT id FROM {model} WHERE`. -/
def jsonScanParams (searchParams : List PortMatch) (type : String) (forceLength : Option Int)
    (forceNonNullableLength forceStructureLength : Option Int) (model : String) :
    Except ValueError Built := do
  rejectUnsupportedLegacyMatchFields model searchParams
  requireClauses "" (buildItemQueries type searchParams ++
    whereSet forceLength (fun n => ⟨[.eq (.app .arrayLength (.bare type)) (.const (.int n))], []⟩) ++
    whereSet forceNonNullableLength (fun n => ⟨[countItems type "nullable" "false" n], []⟩) ++
    whereSet forceStructureLength (fun n => ⟨[countItems type "kind" "STRUCTURE" n], []⟩))

/-- `build_state_params`. -/
def buildStateParams (searchParams : List PortMatch) (model : String) : Except ValueError Built := do
  rejectUnsupportedLegacyMatchFields model searchParams
  requireClauses "" (buildItemQueries "ports" searchParams)

end Managers
end Rekuest
