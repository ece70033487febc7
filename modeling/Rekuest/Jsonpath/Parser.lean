import Rekuest.Jsonpath.Lexer

/-!
# Rekuest.Jsonpath.Parser

JSONPath predicates from their tokens: `||` between `&&` between comparisons of a path with a scalar,
tests for existence and parentheses.

* `sequence`: items with a separator between them. `predicate`: down to a depth of parentheses.
* `parse`: the predicate that a text is, all of it. `parseQuery`: a constant in parentheses is none,
  but may stand alone.
-/

namespace Jsonpath

open Coding

variable {α : Type}

/-! ## Paths and scalars -/

def steps : List Token → List Step × List Token
  | .dot :: .word name :: ts => (.member name :: (steps ts).1, (steps ts).2)
  | .dot :: .string name :: ts => (.member name :: (steps ts).1, (steps ts).2)
  | .mark '[' :: .star :: .mark ']' :: ts => (.elements :: (steps ts).1, (steps ts).2)
  | ts => ([], ts)

def path : List Token → Option (List Step × List Token)
  | .root :: ts => some (steps ts)
  | _ => none

def constant (name : String) : Option Scalar :=
  if name = "null" then some .null
  else if name = "true" then some (.bool true)
  else if name = "false" then some (.bool false)
  else none

def scalar : List Token → Option (Scalar × List Token)
  | .word name :: ts => (constant name).map fun s => (s, ts)
  | .string s :: ts => some (.string s, ts)
  | .number q :: ts => some (.number q, ts)
  | .minus :: .number q :: ts => some (.number (-q), ts)
  | _ => none

/-! ## Predicates -/

def comparison (ts : List Token) : Option (Predicate × List Token) :=
  match path ts with
  | some (ss, .comparison op :: r) => (scalar r).map fun q => (.compare ss op q.1, q.2)
  | _ => none

def closed : Option (α × List Token) → Option (α × List Token)
  | some (a, .closing :: ts) => some (a, ts)
  | _ => none

/-- A predicate in parentheses, or a test for existence. -/
def delimited (pred : List Token → Option (Predicate × List Token)) :
    List Token → Option (Predicate × List Token)
  | .opening :: ts => closed (pred ts)
  | .word name :: .opening :: ts =>
    if name = "exists" then (closed (path ts)).map fun q => (.existence q.1, q.2) else none
  | _ => none

def unit (pred : List Token → Option (Predicate × List Token)) :
    List Token → Option (Predicate × List Token)
  | .not :: ts => (delimited pred ts).map fun q => (.not q.1, q.2)
  | .root :: ts => comparison (.root :: ts)
  | ts => delimited pred ts

def endsAt (sep : Token) (ts : List Token) : Bool := ts.head? ≠ some sep

def behind (item : List Token → Option (α × List Token)) (ts : List Token) :
    Option (α × List Token) := item ts.tail

/-- One item or more. -/
def sequence (sep : Token) (item : List Token → Option (α × List Token)) (ts : List Token) :
    Option (List α × List Token) :=
  match item ts with
  | none => none
  | some (a, r) => (many (endsAt sep) (behind item) r).map fun q => (a :: q.1, q.2)

/-- From the left. -/
def combine (join : α → α → α) : Option (List α × List Token) → Option (α × List Token)
  | some (a :: as, r) => some (as.foldl join a, r)
  | _ => none

def conjunction (pred : List Token → Option (Predicate × List Token)) (ts : List Token) :
    Option (Predicate × List Token) := combine .and (sequence .and (unit pred) ts)

def predicate : Nat → List Token → Option (Predicate × List Token)
  | 0, _ => none
  | depth + 1, ts => combine .or (sequence .or (conjunction (predicate depth)) ts)

def parseTokens (ts : List Token) : Option Predicate :=
  match predicate (ts.length + 1) ts with
  | some (p, []) => some p
  | _ => none

def parse (text : String) : Option Predicate := (lex text.toList).bind parseTokens

example : parse "$.a == \"c\" && !(exists($.b.c)) && ($.d[*] != null || $.e >= true)" =
    some (.and (.and (.compare [.member "a"] .eq (.string "c"))
      (.not (.existence [.member "b", .member "c"])))
      (.or (.compare [.member "d", .elements] .ne .null)
        (.compare [.member "e"] .ge (.bool true)))) := by decide +kernel

example : parse "$.a == 1 && (false)" = none := by decide +kernel

/-- A constant in parentheses. -/
def bracketed : List Token → Option (Scalar × List Token)
  | .opening :: .word name :: .closing :: ts => (constant name).map fun s => (s, ts)
  | _ => none

def parseConstant (text : String) : Option Scalar :=
  match (lex text.toList).bind bracketed with
  | some (s, []) => some s
  | _ => none

def parseQuery (text : String) : Option Query :=
  match parse text with
  | some p => some (.predicate p)
  | none => (parseConstant text).map .constant

example : parseQuery "(false)" = some (.constant (.bool false)) ∧
    parseQuery "$.a == 1 && (false)" = none := by decide +kernel

/-! ## What is left -/

/-- What is left is no longer than what was there. -/
def Shrinks (item : List Token → Option (α × List Token)) : Prop :=
  ∀ ts q, item ts = some q → q.2.length ≤ ts.length

variable {item : List Token → Option (α × List Token)} {sep : Token} {ts r : List Token} {a : α}
  {pred : List Token → Option (Predicate × List Token)}

theorem steps_length (ts : List Token) : (steps ts).2.length ≤ ts.length := by
  fun_induction steps ts with
  | case1 name ts ih => simp; omega
  | case2 name ts ih => simp; omega
  | case3 ts ih => simp; omega
  | case4 ts => simp

theorem path_shrinks : Shrinks path := by
  intro ts q h
  unfold path at h
  split at h
  · cases h
    have hle := steps_length (by assumption)
    simp
    omega
  · cases h

theorem scalar_shrinks : Shrinks scalar := by
  intro ts q h
  unfold scalar at h
  split at h
  · obtain ⟨s, _, rfl⟩ := Option.map_eq_some_iff.mp h
    simp
  all_goals cases h
  all_goals simp
  omega

theorem comparison_shrinks : Shrinks comparison := by
  intro ts q h
  unfold comparison at h
  split at h
  · rename_i hpath
    obtain ⟨p, hp, rfl⟩ := Option.map_eq_some_iff.mp h
    have hle := path_shrinks _ _ hpath
    have hle' := scalar_shrinks _ _ hp
    simp at hle ⊢
    omega
  · cases h

theorem closed_shrinks (h : Shrinks item) : Shrinks fun ts => closed (item ts) := by
  intro ts q hq
  dsimp only at hq
  unfold closed at hq
  split at hq
  · rename_i hitem
    cases hq
    have hle := h _ _ hitem
    simp at hle ⊢
    omega
  · cases hq

theorem delimited_shrinks (h : Shrinks pred) : Shrinks (delimited pred) := by
  intro ts q hq
  unfold delimited at hq
  split at hq
  · have hle := closed_shrinks h _ _ hq
    simp
    omega
  · split at hq
    · obtain ⟨p, hp, rfl⟩ := Option.map_eq_some_iff.mp hq
      have hle := closed_shrinks path_shrinks _ _ hp
      simp at hle ⊢
      omega
    · cases hq
  · cases hq

theorem unit_shrinks (h : Shrinks pred) : Shrinks (unit pred) := by
  intro ts q hq
  unfold unit at hq
  split at hq
  · obtain ⟨p, hp, rfl⟩ := Option.map_eq_some_iff.mp hq
    have hle := delimited_shrinks h _ _ hp
    simp
    omega
  · exact comparison_shrinks _ _ hq
  · exact delimited_shrinks h _ _ hq

theorem sequence_shrinks (h : Shrinks item) : Shrinks (sequence sep item) := by
  intro ts q hq
  unfold sequence at hq
  split at hq
  · cases hq
  · rename_i hitem
    obtain ⟨p, hp, rfl⟩ := Option.map_eq_some_iff.mp hq
    have hle := h _ _ hitem
    have hle' := many_length hp
    simp at hle ⊢
    omega

theorem combine_shrinks {f : List Token → Option (List α × List Token)} {join : α → α → α}
    (h : Shrinks f) : Shrinks fun ts => combine join (f ts) := by
  intro ts q hq
  dsimp only at hq
  unfold combine at hq
  split at hq
  · rename_i hf
    cases hq
    exact h _ _ hf
  · cases hq

theorem conjunction_shrinks (h : Shrinks pred) : Shrinks (conjunction pred) :=
  combine_shrinks (sequence_shrinks (unit_shrinks h))

theorem predicate_shrinks (depth : Nat) : Shrinks (predicate depth) := by
  induction depth with
  | zero =>
    intro ts q h
    cases h
  | succ depth ih => exact combine_shrinks (sequence_shrinks (conjunction_shrinks ih))

/-! ## Sequences -/

theorem sequence_none (h : item ts = none) : sequence sep item ts = none := by
  rw [sequence, h]

theorem sequence_last (h : item ts = some (a, r)) (hsep : r.head? ≠ some sep) :
    sequence sep item ts = some ([a], r) := by
  have hstop : endsAt sep r = true := decide_eq_true hsep
  rw [sequence, h]
  simp only
  rw [many_stop hstop]
  rfl

theorem sequence_cons (hitem : Shrinks item) (h : item ts = some (a, sep :: r)) :
    sequence sep item ts = (sequence sep item r).map fun q => (a :: q.1, q.2) := by
  rw [sequence, h]
  simp only
  have hstop : endsAt sep (sep :: r) = false := by simp [endsAt]
  cases hr : item r with
  | none =>
    have hread : behind item (sep :: r) = none := hr
    rw [many_none hstop hread, sequence_none hr]
  | some q =>
    have hread : behind item (sep :: r) = some (q.1, q.2) := hr
    have hlt : q.2.length < (sep :: r).length := Nat.lt_succ_of_le (hitem _ _ hr)
    rw [many_read hstop hread hlt, sequence, hr]

end Jsonpath
