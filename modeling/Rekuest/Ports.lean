import Rekuest.Fallible.Fold
import Rekuest.Models.Rows
import Rekuest.Store

/-!
# Rekuest.Ports

What is derived from the ports of a definition.

* `bulkCreatePorts`: the relational rows of a port tree, level by level. `createLevels_fuel`: a
  tree has no level beyond its depth.
* `inferActionScope`, `inferProtocols`: the scope and the protocols of a definition.
* `servicesFromPorts`: the services that its ports refer to.
-/

namespace Rekuest
namespace Ports

open Fallible

/-! ## The relational rows -/

mutual
def depth : Port → Nat
  | ⟨_, _, _, _, _, _, _, children⟩ => depthOf children + 1

def depthOf : List Port → Nat
  | [] => 0
  | port :: ports => max (depth port) (depthOf ports)
end

/-- A port that is about to become a row, and the path of its parent. -/
structure Pending where
  port : Port
  parent : Option Nat
  index : Nat
  parentPath : String

variable (compiler : List Descriptor → Except Error (Option String))

def Pending.path (p : Pending) : String :=
  if p.parentPath = "" then p.port.key else p.parentPath ++ "." ++ p.port.key

def Pending.build (p : Pending) : Except Error PortRow := do
  let compiled ← compiler p.port.descriptors
  return {
    parent := p.parent
    index := p.index
    key := p.port.key
    keyPath := p.path
    kind := p.port.kind
    identifier := p.port.identifier
    compiledJsonpath := compiled
    nullable := p.port.nullable
    dimension := p.port.dimension }

/-- Ports side by side, below one parent. -/
def siblings (parent : Option Nat) (parentPath : String) (ports : List Port) : List Pending :=
  ports.zipIdx.map fun p => ⟨p.1, parent, p.2, parentPath⟩

/-- The level below a level whose rows come behind the `created` ones. -/
def nextLevel (created : Nat) (level : List Pending) : List Pending :=
  level.zipIdx.flatMap fun p => siblings (some (created + p.2)) p.1.path p.1.port.children

def createLevels : Nat → Nat → List Pending → Except Error (List PortRow)
  | 0, _, _ => .ok []
  | fuel + 1, created, level =>
    if level.isEmpty then .ok []
    else do
      let rows ← level.mapM (Pending.build compiler)
      let rest ← createLevels fuel (created + level.length) (nextLevel created level)
      return rows ++ rest

/-- `_bulk_create_ports_level_by_level`. -/
def bulkCreatePorts (ports : List Port) : Except Error (List PortRow) :=
  createLevels compiler (depthOf ports) 0 (siblings none "" ports)

/-- How many levels are left. -/
def levels (level : List Pending) : Nat := depthOf (level.map Pending.port)

theorem depthOf_append (ports rest : List Port) :
    depthOf (ports ++ rest) = max (depthOf ports) (depthOf rest) := by
  induction ports with
  | nil => simp [depthOf]
  | cons port ports ih => simp [depthOf, ih, Nat.max_assoc]

theorem depth_eq (port : Port) : depth port = depthOf port.children + 1 := by
  cases port
  rfl

theorem siblings_ports (parent : Option Nat) (parentPath : String) (ports : List Port) :
    (siblings parent parentPath ports).map Pending.port = ports := by
  rw [siblings, List.map_map]
  exact List.zipIdx_map_fst 0 ports

theorem nextLevel_ports (created : Nat) (level : List Pending) :
    (nextLevel created level).map Pending.port = level.flatMap fun p => p.port.children := by
  rw [nextLevel, List.map_flatMap]
  simp only [siblings_ports]
  conv_rhs => rw [← List.zipIdx_map_fst 0 level, List.flatMap_map]

theorem levels_nextLevel (created : Nat) (level : List Pending) :
    levels (nextLevel created level) = levels level - 1 := by
  rw [levels, nextLevel_ports, levels]
  induction level with
  | nil => rfl
  | cons p level ih =>
    rw [List.flatMap_cons, depthOf_append, ih, List.map_cons, depthOf, depth_eq]
    omega

/-- A tree has no level beyond its depth: more fuel creates no more rows. -/
theorem createLevels_fuel {fuel created : Nat} {level : List Pending} (h : levels level ≤ fuel) :
    createLevels compiler (fuel + 1) created level = createLevels compiler fuel created level := by
  induction fuel generalizing created level with
  | zero =>
    have hnil : level = [] := by
      cases level with
      | nil => rfl
      | cons p level =>
        rw [levels, List.map_cons, depthOf, depth_eq] at h
        omega
    subst hnil
    rfl
  | succ fuel ih =>
    have hnext : levels (nextLevel created level) ≤ fuel := by
      rw [levels_nextLevel]
      omega
    rw [createLevels, ih hnext]
    rfl

/-! ## Scope and protocols -/

mutual
def traverseScope : Port → Bool
  | ⟨_, kind, _, _, _, _, _, children⟩ => kind = .memoryStructure || hasLocals children

def hasLocals : List Port → Bool
  | [] => false
  | port :: ports => traverseScope port || hasLocals ports
end

def inferActionScope (definition : Identity) : ActionScope :=
  match hasLocals definition.args, hasLocals definition.returns with
  | true, true => .localScope
  | false, false => .globalScope
  | false, true => .bridgeGlobalToLocal
  | true, false => .bridgeLocalToGlobal

def isPredicate (definition : Identity) : Bool :=
  definition.returns.length = 1 && definition.returns.any fun port => port.kind = .bool

def isHook (definition : Identity) : Bool :=
  definition.args.length = 1 &&
    definition.args.any fun port => port.identifier = some "@rekuest/taskevent"

def isAgent (definition : Identity) : Bool :=
  definition.args.length = 1 && definition.args.any fun port => port.identifier = some "@lok/room"

/-- `infer_protocols`: by name. -/
def inferProtocols (definition : Identity) : List String :=
  (if isPredicate definition then ["predicate"] else []) ++
    (if isHook definition then ["hook"] else []) ++
    (if isAgent definition then ["agent"] else [])

/-! ## Services -/

/-- What `str.strip` takes off. -/
def isPythonSpace (c : Char) : Bool :=
  [9, 10, 11, 12, 13, 28, 29, 30, 31, 32, 0x85, 0xa0, 0x1680, 0x2028, 0x2029, 0x202f, 0x205f,
    0x3000].contains c.toNat || (0x2000 ≤ c.toNat && c.toNat ≤ 0x200a)

def strip (cs : List Char) : List Char :=
  ((cs.dropWhile isPythonSpace).reverse.dropWhile isPythonSpace).reverse

/-- The owner of a structure identifier: `mikro` of `@mikro/image`. -/
def serviceFromIdentifier (identifier : String) : Option String :=
  let s := strip identifier.toList
  let s := if s.head? = some '@' then s.tail else s
  let s := s.takeWhile (· != '/')
  if s.isEmpty then none else some (String.ofList s)

mutual
def identifiersOf : Port → List String
  | ⟨_, _, identifier, _, _, _, _, children⟩ =>
    (identifier.filter (· != "")).toList ++ collectIdentifiers children

def collectIdentifiers : List Port → List String
  | [] => []
  | port :: ports => identifiersOf port ++ collectIdentifiers ports
end

def servicesFromPorts (args returns : List Port) : List String :=
  (collectIdentifiers args ++ collectIdentifiers returns).foldl (fun services identifier =>
    match serviceFromIdentifier identifier with
    | none => services
    | some service => if services.contains service then services else services ++ [service]) []

end Ports
end Rekuest
