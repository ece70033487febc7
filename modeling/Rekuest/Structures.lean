import Rekuest.Coding.Cuts
import Rekuest.Managers
import Rekuest.Models.Rows

/-!
# Rekuest.Structures

Which actions use a structure: looked up in the rows of the ports, and read off the port trees.

* `portUsages`: the lookup. It takes the ancestors of a port from the dot-prefixes of its path.
* `treeUsage`: the usage that a port is, by the parent links of the rows.
-/

namespace Rekuest
namespace Structures

open Interleave (Table)

structure PortUsage where
  action : ActionId
  portKey : String
  index : Nat
  keyPath : String
  modifiers : List String
  deriving DecidableEq, Repr

/-- An order in which the database answers a query. -/
structure Answering where
  arrange : List (ActionId × PortRow) → List (ActionId × PortRow)
  perm : ∀ rows, (arrange rows).Perm rows

/-- `[".".join(parts[:depth]) for depth in range(1, len(parts))]`. -/
def dotPrefixes (keyPath : String) : List String :=
  let parts := keyPath.toList.splitOn '.'
  (List.range (parts.length - 1)).map fun depth =>
    String.ofList (['.'].intercalate (parts.take (depth + 1)))

/-- The kind of a container, in lower case. -/
def modifiersOf (row : PortRow) : List String :=
  if row.kind = .dict ∨ row.kind = .list then
    [String.ofList (row.kind.value.toList.map Char.toLower)]
  else []

/-- The rows of one port model: `ports` gives those of an action. -/
def portTable (db : Database) (ports : ActionId → List PortRow) : List (ActionId × PortRow) :=
  (db.actions.select fun _ _ => true).flatMap fun action =>
    (ports action.1).map fun row => (action.1, row)

variable (upper : String → String) (db : Database) (ports : ActionId → List PortRow)
  (organization : Organization) (identifier : String) (kind : PortKind)

/-- `identifier__iexact=..., kind=..., action__organization=...`. -/
def isUsage (port : ActionId × PortRow) : Bool :=
  (port.2.identifier.any fun own => upper own = upper identifier) && port.2.kind = kind &&
    (db.actions.get port.1).any fun action => action.organization = organization

/-- The dictionary of the ancestors: of the rows of one action with one path the last. -/
def ancestorAt (ancestors : List (ActionId × PortRow)) (action : ActionId) (path : String) :
    Option PortRow :=
  (ancestors.reverse.find? fun port => port.1 = action && port.2.keyPath = path).map (·.2)

/-- The usage of a row, with `chain` the rows that were found at the dot-prefixes of its path. -/
def usageOf (row : ActionId × PortRow) (chain : List (Option PortRow)) : PortUsage :=
  let root := (chain.head?.bind id).getD row.2
  { action := row.1
    portKey := root.key
    index := root.index
    keyPath := row.2.keyPath
    modifiers := (chain.filterMap id).flatMap modifiersOf }

/-- `_port_usages`. The two queries are answered each in an order of its own. -/
def portUsages (first second : Answering) : List PortUsage :=
  let rows := first.arrange ((portTable db ports).filter (isUsage upper db organization identifier kind))
  let actionIds := rows.map (·.1)
  let ancestorPaths := rows.flatMap fun row => dotPrefixes row.2.keyPath
  let ancestors := if ancestorPaths.isEmpty then [] else
    second.arrange ((portTable db ports).filter fun port =>
      actionIds.contains port.1 && ancestorPaths.contains port.2.keyPath)
  rows.map fun row =>
    usageOf row ((dotPrefixes row.2.keyPath).map (ancestorAt ancestors row.1))

/-! ## By the parent links -/

/-- The rows above a row, from the root downwards. A row names its parent by its place. -/
def ancestorsOf (rows : List PortRow) : Nat → Option Nat → List PortRow
  | 0, _ => []
  | _ + 1, none => []
  | fuel + 1, some parent =>
    match rows[parent]? with
    | none => []
    | some row => ancestorsOf rows fuel row.parent ++ [row]

def properAncestors (rows : List PortRow) (row : PortRow) : List PortRow :=
  ancestorsOf rows rows.length row.parent

/-- The port at the top of the tree that the row is in. -/
def rootOf (rows : List PortRow) (row : PortRow) : PortRow := (properAncestors rows row).headD row

def treeUsage (port : ActionId × PortRow) : PortUsage :=
  let root := rootOf (ports port.1) port.2
  { action := port.1
    portKey := root.key
    index := root.index
    keyPath := port.2.keyPath
    modifiers := (properAncestors (ports port.1) port.2).flatMap modifiersOf }

end Structures
end Rekuest
