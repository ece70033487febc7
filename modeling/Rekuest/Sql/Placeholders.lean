import Mathlib.Data.List.TakeDrop
import Rekuest.Sql.Query

/-!
# Rekuest.Sql.Placeholders

How a condition is written, and how its placeholders are bound.

* `Cond.pieces`: the text of a condition, with the named placeholders in it. `Cond.keys`: these.
* `scan`: the text as `re` reads it with `%\((\w+)\)s`. `scan_text`: it finds the placeholders that
  were written, and no others.
* `bindNamed`, `bindPositional`: what the server gets of a statement with named and with positional
  placeholders. `bindPositional_text`: the same, where each name is replaced by its value's place.
-/

namespace Sql

/-! ## Text -/

inductive Piece where
  | raw (s : String)
  | named (key : String)
  deriving DecidableEq

def Piece.text : Piece → List Char
  | raw s => s.toList
  | named key => '%' :: '(' :: (key.toList ++ [')', 's'])

def Piece.key? : Piece → Option String
  | raw _ => none
  | named key => some key

def text (ps : List Piece) : List Char := ps.flatMap Piece.text

/-- The names of the placeholders, in their order. -/
def placeholders (ps : List Piece) : List String := ps.filterMap Piece.key?

@[simp] theorem placeholders_nil : placeholders [] = [] := rfl

@[simp] theorem placeholders_raw (s : String) (ps : List Piece) :
    placeholders (.raw s :: ps) = placeholders ps := rfl

@[simp] theorem placeholders_named (key : String) (ps : List Piece) :
    placeholders (.named key :: ps) = key :: placeholders ps := rfl

@[simp] theorem placeholders_append (ps qs : List Piece) :
    placeholders (ps ++ qs) = placeholders ps ++ placeholders qs := List.filterMap_append

section

variable {O P V : Type} (D : Dialect O P V)

def Term.pieces : Term O V → List Piece
  | column label name => [.raw (label ++ "." ++ name)]
  | bare name => [.raw name]
  | param key => [.named key]
  | const v => [.raw (D.writeConst v)]
  | app op t => .raw (D.writeOp op).1 :: (t.pieces ++ [.raw (D.writeOp op).2])

def Source.pieces : Source O V → List Piece
  | table name label => [.raw (if label = name then name else name ++ " " ++ label)]
  | join name label joined joinedLabel l r =>
    .raw (name ++ " " ++ label ++ " JOIN " ++ joined ++ " " ++ joinedLabel ++ " ON ") ::
      (l.pieces D ++ .raw " = " :: r.pieces D)
  | elements t label item (some ordinality) =>
    .raw "jsonb_array_elements(" :: (t.pieces D ++
      [.raw (") WITH ORDINALITY AS " ++ label ++ "(" ++ item ++ ", " ++ ordinality ++ ")")])
  | elements t label item none =>
    .raw "jsonb_array_elements(" :: (t.pieces D ++ [.raw (") AS " ++ label ++ "(" ++ item ++ ")")])

mutual
def Cond.pieces : Cond O P V → List Piece
  | eq l r => l.pieces D ++ .raw " = " :: r.pieces D
  | isNull t => t.pieces D ++ [.raw " IS NULL"]
  | test p l r =>
    .raw (D.writeTest p).1 :: (l.pieces D ++ .raw (D.writeTest p).2.1 :: (r.pieces D ++
      [.raw (D.writeTest p).2.2]))
  | or c d => .raw "(" :: (c.pieces ++ .raw " OR " :: (d.pieces ++ [.raw ")"]))
  | exists_ source whose =>
    .raw "EXISTS (SELECT 1 FROM " :: (source.pieces D ++ .raw " WHERE " ::
      (Cond.allPieces whose ++ [.raw ")"]))
  | count source whose n =>
    .raw "(SELECT COUNT(*) FROM " :: (source.pieces D ++ .raw " WHERE " ::
      (Cond.allPieces whose ++ .raw ") = " :: n.pieces D))
  | isIn t column source whose =>
    t.pieces D ++ .raw " IN (SELECT " :: (column.pieces D ++ .raw " FROM " ::
      (source.pieces D ++ .raw " WHERE " :: (Cond.allPieces whose ++ [.raw ")"])))

/-- The conditions, with `AND` between them. -/
def Cond.allPieces : List (Cond O P V) → List Piece
  | [] => []
  | [c] => c.pieces
  | c :: cs => c.pieces ++ .raw " AND " :: Cond.allPieces cs
end

/-! ## The placeholders of a condition -/

def Term.keys : Term O V → List String
  | param key => [key]
  | app _ t => t.keys
  | _ => []

def Source.keys : Source O V → List String
  | table _ _ => []
  | join _ _ _ _ l r => l.keys ++ r.keys
  | elements t _ _ _ => t.keys

mutual
def Cond.keys : Cond O P V → List String
  | eq l r => l.keys ++ r.keys
  | isNull t => t.keys
  | test _ l r => l.keys ++ r.keys
  | or c d => c.keys ++ d.keys
  | exists_ source whose => source.keys ++ Cond.allKeys whose
  | count source whose n => source.keys ++ Cond.allKeys whose ++ n.keys
  | isIn t column source whose => t.keys ++ column.keys ++ source.keys ++ Cond.allKeys whose

def Cond.allKeys : List (Cond O P V) → List String
  | [] => []
  | c :: cs => c.keys ++ Cond.allKeys cs
end

theorem allKeys_append (cs ds : List (Cond O P V)) :
    Cond.allKeys (cs ++ ds) = Cond.allKeys cs ++ Cond.allKeys ds := by
  induction cs with
  | nil => rfl
  | cons c cs ih => simp [Cond.allKeys, ih]

@[simp] theorem Term.placeholders_pieces (t : Term O V) : placeholders (t.pieces D) = t.keys := by
  induction t with
  | app op t ih => simp [pieces, keys, ih]
  | _ => simp [pieces, keys]

@[simp] theorem Source.placeholders_pieces (source : Source O V) :
    placeholders (source.pieces D) = source.keys := by
  cases source with
  | table name label => rfl
  | join name label joined joinedLabel l r => simp [pieces, keys]
  | elements t label item ordinality => cases ordinality <;> simp [pieces, keys]

mutual
theorem Cond.placeholders_pieces : ∀ c : Cond O P V, placeholders (c.pieces D) = c.keys
  | eq _ _ => by simp [Cond.pieces, Cond.keys]
  | isNull _ => by simp [Cond.pieces, Cond.keys]
  | test _ _ _ => by simp [Cond.pieces, Cond.keys]
  | or c d => by
    simp [Cond.pieces, Cond.keys, Cond.placeholders_pieces c, Cond.placeholders_pieces d]
  | exists_ _ whose => by
    simp [Cond.pieces, Cond.keys, Cond.placeholders_allPieces whose]
  | count _ whose _ => by
    simp [Cond.pieces, Cond.keys, Cond.placeholders_allPieces whose]
  | isIn _ _ _ whose => by
    simp [Cond.pieces, Cond.keys, Cond.placeholders_allPieces whose]

theorem Cond.placeholders_allPieces :
    ∀ cs : List (Cond O P V), placeholders (Cond.allPieces D cs) = Cond.allKeys cs
  | [] => rfl
  | [c] => by simp [Cond.allPieces, Cond.allKeys, Cond.placeholders_pieces c]
  | c :: d :: cs => by
    have hrest := Cond.placeholders_allPieces (d :: cs)
    simp [Cond.allPieces, Cond.allKeys, Cond.placeholders_pieces c] at hrest ⊢
    exact hrest
end

end

/-! ## The regular expression -/

/-- `\w`, of the characters that stand in a statement. -/
def isWordChar (c : Char) : Bool := c.isAlphanum || c = '_'

/-- A match of `%\((\w+)\)s` at the start of a text, and what is behind it. -/
def placeholder? : List Char → Option (List Char × List Char)
  | '%' :: '(' :: cs =>
    match cs.takeWhile isWordChar, cs.dropWhile isWordChar with
    | c :: key, ')' :: 's' :: rest => some (c :: key, rest)
    | _, _ => none
  | _ => none

inductive Token where
  | char (c : Char)
  | placeholder (key : String)
  deriving DecidableEq

/-- The matches in a text, and the characters between them. -/
def scan : Nat → List Char → List Token
  | 0, _ => []
  | _ + 1, [] => []
  | fuel + 1, c :: cs =>
    match placeholder? (c :: cs) with
    | some (key, rest) => .placeholder (String.ofList key) :: scan fuel rest
    | none => .char c :: scan fuel cs

def tokens (sql : List Char) : List Token := scan sql.length sql

def Token.key? : Token → Option String
  | char _ => none
  | placeholder key => some key

/-- `findall`. -/
def findall (sql : List Char) : List String := (tokens sql).filterMap Token.key?

def Token.replaced (by_ : List Char) : Token → List Char
  | char c => [c]
  | placeholder _ => by_

/-- `sub`. -/
def sub (by_ sql : List Char) : List Char := (tokens sql).flatMap (Token.replaced by_)

/-- A piece that is read as it was written: a text without `%`, a key of word characters. -/
def Piece.Plain : Piece → Prop
  | raw s => '%' ∉ s.toList
  | named key => key.toList ≠ [] ∧ ∀ c ∈ key.toList, isWordChar c = true

/-- Pieces that are read as they were written. -/
def AllPlain (ps : List Piece) : Prop := ∀ p ∈ ps, p.Plain

@[simp] theorem allPlain_nil : AllPlain [] := by simp [AllPlain]

@[simp] theorem allPlain_cons {p : Piece} {ps : List Piece} :
    AllPlain (p :: ps) ↔ p.Plain ∧ AllPlain ps := by simp [AllPlain]

@[simp] theorem allPlain_append {ps qs : List Piece} :
    AllPlain (ps ++ qs) ↔ AllPlain ps ∧ AllPlain qs := by
  simp [AllPlain, or_imp, forall_and]

theorem allPlain_allPieces {O P V : Type} {D : Dialect O P V} {cs : List (Cond O P V)}
    (h : ∀ c ∈ cs, AllPlain (c.pieces D)) : AllPlain (Cond.allPieces D cs) := by
  induction cs with
  | nil => exact allPlain_nil
  | cons c cs ih =>
    have hc := h c List.mem_cons_self
    have hcs := ih fun d hd => h d (List.mem_cons_of_mem _ hd)
    cases cs with
    | nil => exact hc
    | cons d cs =>
      show AllPlain (c.pieces D ++ .raw " AND " :: Cond.allPieces D (d :: cs))
      rw [allPlain_append, allPlain_cons]
      exact ⟨hc, by simp [Piece.Plain], hcs⟩

def Piece.tokens : Piece → List Token
  | raw s => s.toList.map .char
  | named key => [.placeholder key]

theorem placeholder?_named {key : List Char} (hne : key ≠ [])
    (hword : ∀ c ∈ key, isWordChar c = true) (rest : List Char) :
    placeholder? ('%' :: '(' :: (key ++ ')' :: 's' :: rest)) = some (key, rest) := by
  obtain ⟨c, key, rfl⟩ := List.exists_cons_of_ne_nil hne
  have hstop : isWordChar ')' = false := by decide
  have htake : (c :: key ++ ')' :: 's' :: rest).takeWhile isWordChar = c :: key := by
    rw [List.takeWhile_append_of_pos hword]
    simp [hstop]
  have hdrop : (c :: key ++ ')' :: 's' :: rest).dropWhile isWordChar = ')' :: 's' :: rest := by
    rw [List.dropWhile_append_of_pos hword]
    simp [hstop]
  simp only [placeholder?, htake, hdrop]

theorem placeholder?_of_ne {c : Char} (h : c ≠ '%') (cs : List Char) :
    placeholder? (c :: cs) = none := by
  unfold placeholder?
  split
  · rename_i heq
    exact absurd (List.cons.inj heq).1 h
  · rfl

theorem scan_raw {s : List Char} (h : '%' ∉ s) {fuel : Nat} {rest : List Char} {ts : List Token}
    (hrest : ∀ fuel, rest.length ≤ fuel → scan fuel rest = ts) (hfuel : (s ++ rest).length ≤ fuel) :
    scan fuel (s ++ rest) = s.map Token.char ++ ts := by
  induction s generalizing fuel with
  | nil => exact hrest fuel hfuel
  | cons c s ih =>
    cases fuel with
    | zero => simp at hfuel
    | succ fuel =>
      have hc : c ≠ '%' := fun hc => h (by simp [hc])
      rw [List.cons_append, scan, placeholder?_of_ne hc]
      simp only [List.map_cons, List.cons_append]
      rw [ih (fun hs => h (List.mem_cons_of_mem _ hs)) (by simpa using hfuel)]

/-- The scan finds the placeholders that were written, and no others. -/
theorem scan_text {ps : List Piece} (h : AllPlain ps) :
    ∀ fuel, (text ps).length ≤ fuel → scan fuel (text ps) = ps.flatMap Piece.tokens := by
  induction ps with
  | nil =>
    intro fuel _
    cases fuel <;> rfl
  | cons p ps ih =>
    intro fuel hfuel
    have hps := ih fun p hp => h p (List.mem_cons_of_mem _ hp)
    have hp := h p List.mem_cons_self
    cases p with
    | raw s => exact scan_raw hp hps hfuel
    | named key =>
      have heq : text (.named key :: ps) =
          '%' :: '(' :: (key.toList ++ ')' :: 's' :: text ps) := by
        simp [text, Piece.text]
      rw [heq] at hfuel ⊢
      cases fuel with
      | zero => simp at hfuel
      | succ fuel =>
        rw [scan, placeholder?_named hp.1 hp.2]
        simp only [List.length_cons, List.length_append] at hfuel
        simp [hps fuel (by omega), Piece.tokens]

theorem tokens_text {ps : List Piece} (h : AllPlain ps) :
    tokens (text ps) = ps.flatMap Piece.tokens :=
  scan_text h _ (Nat.le_refl _)

theorem findall_text {ps : List Piece} (h : AllPlain ps) :
    findall (text ps) = placeholders ps := by
  rw [findall, tokens_text h]
  clear h
  induction ps with
  | nil => rfl
  | cons p ps ih =>
    rw [List.flatMap_cons, List.filterMap_append, ih]
    cases p with
    | raw s =>
      have hnone : (s.toList.map Token.char).filterMap Token.key? = [] := by
        simp [List.filterMap_eq_nil_iff, Token.key?]
      simp [Piece.tokens, hnone]
    | named key => simp [Piece.tokens, Token.key?]

/-! ## Binding -/

section

variable {V : Type}

/-- What the server gets of a statement: characters, and values in the place of placeholders. -/
abbrev Bound (V : Type) := List (Char ⊕ V)

/-- With named placeholders. -/
def bindTokens (params : String → Option V) : List Token → Option (Bound V)
  | [] => some []
  | .char c :: ts => (bindTokens params ts).map (.inl c :: ·)
  | .placeholder key :: ts =>
    (params key).bind fun v => (bindTokens params ts).map (.inr v :: ·)

def bindNamed (params : String → Option V) (sql : List Char) : Option (Bound V) :=
  bindTokens params (tokens sql)

/-- With positional placeholders `%s`: as many as there are values. Any other `%` is refused. -/
def bindPositional : List Char → List V → Option (Bound V)
  | [], [] => some []
  | [], _ :: _ => none
  | '%' :: 's' :: cs, v :: vs => (bindPositional cs vs).map (.inr v :: ·)
  | c :: cs, vs => if c = '%' then none else (bindPositional cs vs).map (.inl c :: ·)

theorem bindPositional_char {c : Char} (h : c ≠ '%') (cs : List Char) (vs : List V) :
    bindPositional (c :: cs) vs = (bindPositional cs vs).map (.inl c :: ·) := by
  rw [bindPositional, if_neg h]
  intro cs' v vs' _ hc
  exact absurd hc h

theorem bindPositional_raw {s : List Char} (h : '%' ∉ s) (cs : List Char) (vs : List V) :
    bindPositional (s ++ cs) vs = (bindPositional cs vs).map (s.map .inl ++ ·) := by
  induction s with
  | nil => simp
  | cons c s ih =>
    have hc : c ≠ '%' := fun hc => h (by simp [hc])
    rw [List.cons_append, bindPositional_char hc, ih fun hs => h (List.mem_cons_of_mem _ hs)]
    simp [Function.comp_def]

theorem bindTokens_raw (params : String → Option V) (s : List Char) (ts : List Token) :
    bindTokens params (s.map Token.char ++ ts) = (bindTokens params ts).map (s.map .inl ++ ·) := by
  induction s with
  | nil => simp
  | cons c s ih => simp [bindTokens, ih, Function.comp_def]

/-- **Names or places.** A statement whose placeholders are numbered, with the values in the order
of their names, is bound as it was with its names. -/
theorem bindPositional_text {ps : List Piece} (h : AllPlain ps) {params : String → Option V}
    {vs : List V} (hvs : (placeholders ps).mapM params = some vs) :
    bindPositional (sub ['%', 's'] (text ps)) vs = bindNamed params (text ps) := by
  rw [sub, bindNamed, tokens_text h]
  induction ps generalizing vs with
  | nil =>
    cases hvs
    rfl
  | cons p ps ih =>
    have hps := fun p hp => h p (List.mem_cons_of_mem _ hp)
    have hp := h p List.mem_cons_self
    rw [List.flatMap_cons, List.flatMap_append]
    cases p with
    | raw s =>
      have hraw : (s.toList.map Token.char).flatMap (Token.replaced ['%', 's']) = s.toList := by
        simp [List.flatMap_map, Token.replaced]
      simp only [Piece.tokens, hraw]
      rw [bindPositional_raw hp, bindTokens_raw, ih hps hvs]
    | named key =>
      simp only [placeholders_named, List.mapM_cons, Option.pure_def, Option.bind_eq_bind,
        Option.bind_eq_some_iff, Option.some.injEq] at hvs
      obtain ⟨v, hv, vs', hvs', rfl⟩ := hvs
      simp only [Piece.tokens, List.flatMap_cons, List.flatMap_nil, Token.replaced,
        List.cons_append, List.nil_append, bindPositional, bindTokens, hv, Option.bind_some]
      rw [ih hps hvs']

end
end Sql
