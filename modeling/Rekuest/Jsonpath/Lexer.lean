import Mathlib.Algebra.Field.Rat
import Mathlib.Data.List.TakeWhile
import Rekuest.Coding.Digits
import Rekuest.Coding.Reader
import Rekuest.Jsonpath.Syntax

/-!
# Rekuest.Jsonpath.Lexer

The tokens of a JSONPath text, the longest that can be read first.

* `numeral`, `quoted`: unsigned numbers, and strings behind their quote.
* `readToken`: the next token. `lex`: all of them, with blanks between them.
* `Lexes`: a text that is read as these tokens, whatever comes after it. `lexes_word`,
  `lexes_numeral`, `lexes_quoted`, `lexes_operator`: the texts of single tokens.

Comments, variables, names with escapes, digit separators and numbers to other bases are no tokens.
-/

namespace Jsonpath

open Coding

/-! ## Characters -/

def isBlank (c : Char) : Bool := [' ', '\t', '\n', '\r', '\x0c'].contains c

/-- The characters that end a word: special ones, blanks, the backslash and the quote. -/
def apart : List Char := "?%$.[]\x7b\x7d()|&!=<>@#,*:-+/ \t\n\r\x0c\\\"".toList

/-- A character of words. -/
def isOther (c : Char) : Bool := !apart.contains c

/-! ## Numbers -/

/-- The digits behind a point. -/
def fraction : List Char → List Char × List Char
  | '.' :: cs => digits cs
  | cs => ([], cs)

def sign : List Char → Int × List Char
  | '-' :: cs => (-1, cs)
  | '+' :: cs => (1, cs)
  | cs => (1, cs)

def valueOf (ds : List Char) : Nat := Nat.ofDigitChars 10 ds 0

def exponent : List Char → Option (Int × List Char)
  | [] => some (0, [])
  | c :: cs =>
    if c = 'e' ∨ c = 'E' then
      if (digits (sign cs).2).1.isEmpty then none
      else some ((sign cs).1 * valueOf (digits (sign cs).2).1, (digits (sign cs).2).2)
    else some (0, c :: cs)

/-- Without leading zeros, and with nothing behind it that words have. -/
def numeral (cs : List Char) : Option (ℚ × List Char) :=
  let whole := digits cs
  let part := fraction whole.2
  if whole.1.isEmpty && part.1.isEmpty || whole.1.head? = some '0' && whole.1.tail.isEmpty = false
  then none
  else
    match exponent part.2 with
    | none => none
    | some e =>
      if e.2.head?.any isOther then none
      else some (valueOf (whole.1 ++ part.1) * 10 ^ (e.1 - part.1.length), e.2)

/-! ## Strings -/

/-- A character of one or two units. A zero or half of a pair is no character. -/
def escapedUnits (cs : List Char) : Option (Char × List Char) :=
  match codeUnit cs with
  | none => none
  | some (n, r) =>
    if n = 0 then none
    else if 0xd800 ≤ n ∧ n < 0xdc00 then
      match codeUnit r with
      | none => none
      | some (m, r) =>
        if 0xdc00 ≤ m ∧ m < 0xe000 then
          some (Char.ofNat (0x10000 + (n - 0xd800) * 0x400 + (m - 0xdc00)), r)
        else none
    else if 0xdc00 ≤ n ∧ n < 0xe000 then none
    else some (Char.ofNat n, r)

def unescape (c : Char) : Char :=
  if c = 'n' then '\n' else if c = 'r' then '\r' else if c = 't' then '\t'
  else if c = 'b' then '\x08' else if c = 'f' then '\x0c' else if c = 'v' then '\x0b' else c

/-- The next character of a string. -/
def character : List Char → Option (Char × List Char)
  | [] => none
  | c :: r =>
    if c = '\\' then
      match r with
      | [] => none
      | d :: r' =>
        if d = 'u' then escapedUnits (c :: r)
        else if d = 'x' then none
        else some (unescape d, r')
    else some (c, r)

/-- The characters up to the closing quote. -/
def quoted (cs : List Char) : Option (String × List Char) :=
  (many (fun r => r.head? = some '"') character cs).map fun q => (String.ofList q.1, q.2.tail)

/-! ## Tokens -/

/-- An operator or another special character. -/
def operator : List Char → Option (Token × List Char)
  | '&' :: '&' :: r => some (.and, r)
  | '|' :: '|' :: r => some (.or, r)
  | '=' :: '=' :: r => some (.comparison .eq, r)
  | '!' :: '=' :: r => some (.comparison .ne, r)
  | '!' :: r => some (.not, r)
  | '<' :: '>' :: r => some (.comparison .ne, r)
  | '<' :: '=' :: r => some (.comparison .le, r)
  | '<' :: r => some (.comparison .lt, r)
  | '>' :: '=' :: r => some (.comparison .ge, r)
  | '>' :: r => some (.comparison .gt, r)
  | '*' :: '*' :: _ => none
  | '*' :: r => some (.star, r)
  | '/' :: '*' :: _ => none
  | '(' :: r => some (.opening, r)
  | ')' :: r => some (.closing, r)
  | '-' :: r => some (.minus, r)
  | '\\' :: _ => none
  | c :: r => some (.mark c, r)
  | [] => none

def readToken : List Char → Option (Token × List Char)
  | [] => none
  | c :: r =>
    if c.isDigit || c = '.' && r.head?.any Char.isDigit then
      (numeral (c :: r)).map fun p => (.number p.1, p.2)
    else if isOther c then
      some (.word (String.ofList ((c :: r).takeWhile isOther)), (c :: r).dropWhile isOther)
    else if c = '"' then (quoted r).map fun p => (.string p.1, p.2)
    else if c = '.' then some (.dot, r)
    else if c = '$' then
      if r.head?.any fun d => isOther d || d = '"' then none else some (.root, r)
    else operator (c :: r)

def blankOnly (cs : List Char) : Bool := (cs.dropWhile isBlank).isEmpty

def nextToken (cs : List Char) : Option (Token × List Char) := readToken (cs.dropWhile isBlank)

def lex (cs : List Char) : Option (List Token) := (many blankOnly nextToken cs).map Prod.fst

example : lex "$.a >= -1.5e+1".toList =
    some [.root, .dot, .word "a", .comparison .ge, .minus, .number 15] := by decide +kernel

/-! ## Classes of characters -/

variable {c : Char} {cs r : List Char} {n : Nat}

/-- What no character that ends a word is makes a character of words. -/
theorem isOther_of {p : Char → Bool} (h : apart.all (fun d => !p d) = true) (hc : p c = true) :
    isOther c = true := by
  rw [isOther, Bool.not_eq_true', Bool.eq_false_iff]
  intro hmem
  have hno := List.all_eq_true.mp h c (List.contains_iff_mem.mp hmem)
  simp [hc] at hno

theorem isOther_of_isDigit (h : c.isDigit = true) : isOther c = true := isOther_of (by decide) h

/-- A rest that no word goes on with. -/
def Parted (r : List Char) : Prop := ∀ c ∈ r.head?, isOther c = false

/-- A rest that no number goes on with. -/
def Clear (r : List Char) : Prop := ∀ c ∈ r.head?, isOther c = false ∧ c ≠ '.'

theorem Clear.parted (h : Clear r) : Parted r := fun c hc => (h c hc).1

theorem parted_cons (h : isOther c = false) : Parted (c :: r) := by
  intro d hd
  cases hd
  exact h

theorem clear_cons (h : isOther c = false) (hdot : c ≠ '.') : Clear (c :: r) := by
  intro d hd
  cases hd
  exact ⟨h, hdot⟩

theorem Parted.digit (h : Parted r) : ∀ c ∈ r.head?, c.isDigit = false := by
  intro c hc
  by_contra hdigit
  have hother := isOther_of_isDigit (Bool.not_eq_false _ ▸ hdigit)
  rw [h c hc] at hother
  cases hother

/-! ## Numerals -/

theorem digits_append (hr : Parted r) : digits (cs ++ r) = ((digits cs).1, (digits cs).2 ++ r) :=
  Prod.ext (span_append hr.digit).1 (span_append hr.digit).2

theorem fraction_append (hr : Clear r) :
    fraction (cs ++ r) = ((fraction cs).1, (fraction cs).2 ++ r) := by
  cases cs with
  | nil =>
    cases r with
    | nil => rfl
    | cons c r =>
      have hdot := (hr c rfl).2
      simp [fraction, hdot]
  | cons c cs =>
    by_cases hdot : c = '.'
    · subst hdot
      exact digits_append hr.parted
    · simp [fraction, hdot]

theorem sign_append {d : Char} : sign (d :: cs ++ r) = ((sign (d :: cs)).1, (sign (d :: cs)).2 ++ r) := by
  by_cases hminus : d = '-'
  · subst hminus
    rfl
  by_cases hplus : d = '+'
  · subst hplus
    rfl
  simp [sign, hminus, hplus]

theorem exponent_append {e : Int × List Char} (hr : Parted r) (h : exponent cs = some e) :
    exponent (cs ++ r) = some (e.1, e.2 ++ r) := by
  cases cs with
  | nil =>
    cases h
    cases r with
    | nil => rfl
    | cons c r =>
      have hc : ¬(c = 'e' ∨ c = 'E') := by
        rintro (rfl | rfl) <;> exact absurd (hr _ rfl) (by decide)
      simp [exponent, hc]
  | cons c cs =>
    simp only [exponent, List.cons_append] at h ⊢
    split at h
    · rename_i hc
      rw [if_pos hc]
      cases cs with
      | nil => simp [sign, digits] at h
      | cons d cs =>
        rw [sign_append, digits_append hr]
        split at h
        · cases h
        · rename_i hsome
          rw [if_neg hsome]
          cases h
          rfl
    · rename_i hc
      rw [if_neg hc]
      cases h
      rfl

theorem numeral_append {q : ℚ} (hr : Clear r) (h : numeral cs = some (q, [])) :
    numeral (cs ++ r) = some (q, r) := by
  simp only [numeral, digits_append hr.parted, fraction_append hr] at h ⊢
  split at h
  · cases h
  rename_i hwhole
  rw [if_neg hwhole]
  cases hexp : exponent (fraction (digits cs).2).2 with
  | none => simp [hexp] at h
  | some e =>
    rw [exponent_append hr.parted hexp]
    simp only [hexp] at h ⊢
    split at h
    · cases h
    · obtain ⟨rfl, hnil⟩ := Prod.mk.inj (Option.some.inj h)
      have hany : r.head?.any isOther = false := by
        cases r with
        | nil => rfl
        | cons c r => exact (hr c rfl).1
      simp [hnil, hany]

theorem numeral_toDigits (n : Nat) : numeral (Nat.toDigits 10 n) = some ((n : ℚ), []) := by
  have hvalue : valueOf (Nat.toDigits 10 n) = n := Nat.ofDigitChars_ten_toDigits
  have hzeros : (Nat.toDigits 10 n).head? = some '0' → (Nat.toDigits 10 n).tail = [] := by
    intro hhead
    rw [eq_zero_of_head hhead]
    rfl
  simp [numeral, digits_toDigits, fraction, exponent, hvalue]
  exact hzeros

/-! ## Tokens of longer texts -/

/-- With any rest that comes after it, the text is read as these tokens. -/
abbrev Lexes (rest : List Char → Prop) (cs : List Char) (ts : List Token) : Prop :=
  Reads blankOnly nextToken rest cs ts

variable {bs : List Char}

/-- One token, with blanks in front of it. -/
theorem Lexes.of_read {rest : List Char → Prop} {t : Token} (hbs : ∀ b ∈ bs, isBlank b = true)
    (hblank : isBlank c = false) (h : ∀ r, rest r → readToken (c :: cs ++ r) = some (t, r)) :
    Lexes rest (bs ++ c :: cs) [t] := by
  have hdrop : ∀ r, (bs ++ c :: cs ++ r).dropWhile isBlank = c :: cs ++ r := by
    intro r
    rw [List.append_assoc, List.dropWhile_append_of_pos hbs]
    simp [hblank]
  have hne : bs ++ c :: cs ≠ [] := by simp
  refine reads_one (fun r hr => ?_) (fun r hr => ?_) hne
  · rw [blankOnly, hdrop]
    rfl
  · rw [nextToken, hdrop, h r hr]

theorem isBlank_of_isOther (h : isOther c = true) : isBlank c = false := by
  rw [Bool.eq_false_iff]
  intro hblank
  have hmem : c ∈ [' ', '\t', '\n', '\r', '\x0c'] := List.contains_iff_mem.mp hblank
  have hno : [' ', '\t', '\n', '\r', '\x0c'].all (fun d => !isOther d) = true := by decide
  have hc := List.all_eq_true.mp hno c hmem
  rw [h] at hc
  cases hc

theorem lexes_word {w : List Char} (hbs : ∀ b ∈ bs, isBlank b = true) (hne : w ≠ [])
    (hother : ∀ c ∈ w, isOther c = true) (hdigit : ∀ c ∈ w.head?, c.isDigit = false) :
    Lexes Parted (bs ++ w) [.word (String.ofList w)] := by
  cases w with
  | nil => exact absurd rfl hne
  | cons c w =>
    have hc : isOther c = true := hother c (by simp)
    refine Lexes.of_read hbs (isBlank_of_isOther hc) fun r hr => ?_
    have hspan : (c :: w ++ r).takeWhile isOther = (c :: w).takeWhile isOther ∧
        (c :: w ++ r).dropWhile isOther = (c :: w).dropWhile isOther ++ r := span_append hr
    have hall : (c :: w).takeWhile isOther = c :: w := List.takeWhile_eq_self_iff.mpr hother
    have hnone : (c :: w).dropWhile isOther = [] := List.dropWhile_eq_nil_iff.mpr hother
    rw [hall, hnone] at hspan
    have hdot : c ≠ '.' := by
      rintro rfl
      exact absurd hc (by decide)
    rw [List.cons_append] at hspan ⊢
    simp [readToken, hdigit c rfl, hdot, hc, hspan]

/-- A number begins with a digit, or with a point and a digit. -/
theorem numeral_head {p : ℚ × List Char} (h : numeral (c :: cs) = some p) :
    c.isDigit = true ∨ c = '.' ∧ cs.head?.any Char.isDigit = true := by
  by_cases hdigit : c.isDigit = true
  · exact .inl hdigit
  have hwhole : digits (c :: cs) = ([], c :: cs) := by simp [digits, hdigit]
  by_cases hdot : c = '.'
  · subst hdot
    refine .inr ⟨rfl, ?_⟩
    cases cs with
    | nil => cases h
    | cons d cs =>
      by_contra hno
      have hd : d.isDigit = false := by simpa using hno
      have hpart : digits (d :: cs) = ([], d :: cs) := by simp [digits, hd]
      rw [numeral, hwhole] at h
      simp [fraction, hpart] at h
  · rw [numeral, hwhole] at h
    simp [fraction, hdot] at h

theorem lexes_numeral {q : ℚ} (hbs : ∀ b ∈ bs, isBlank b = true) (h : numeral cs = some (q, [])) :
    Lexes Clear (bs ++ cs) [.number q] := by
  cases cs with
  | nil => cases h
  | cons c cs =>
    have hblank : isBlank c = false := by
      rcases numeral_head h with hdigit | ⟨rfl, _⟩
      · exact isBlank_of_isOther (isOther_of_isDigit hdigit)
      · rfl
    refine Lexes.of_read hbs hblank fun r hr => ?_
    have hread : numeral (c :: (cs ++ r)) = some (q, r) := numeral_append hr h
    rw [List.cons_append, readToken, hread]
    rcases numeral_head h with hdigit | ⟨rfl, hdigit⟩
    · simp [hdigit]
    · cases cs with
      | nil => cases hdigit
      | cons d cs =>
        have hd : d.isDigit = true := hdigit
        simp [hd]

theorem reads_encoded {encode : Char → List Char} {s : List Char}
    (h : ∀ c ∈ s, ∀ r, character (encode c ++ r) = some (c, r))
    (hquote : ∀ c ∈ s, ∀ r, (encode c ++ r).head? ≠ some '"') :
    Reads (fun r => r.head? = some '"') character anyRest (s.flatMap encode) s := by
  refine Reads.flatMap fun c hc => reads_one (fun r _ => ?_) (fun r _ => h c hc r) fun hnil => ?_
  · simpa using hquote c hc r
  · have hread := h c hc []
    rw [hnil] at hread
    cases hread

theorem lexes_quoted {encode : Char → List Char} {s : List Char}
    (hbs : ∀ b ∈ bs, isBlank b = true)
    (h : ∀ c ∈ s, ∀ r, character (encode c ++ r) = some (c, r))
    (hquote : ∀ c ∈ s, ∀ r, (encode c ++ r).head? ≠ some '"') :
    Lexes anyRest (bs ++ '"' :: (s.flatMap encode ++ ['"'])) [.string (String.ofList s)] := by
  refine Lexes.of_read hbs (by decide) fun r hr => ?_
  have hquoted : quoted (s.flatMap encode ++ '"' :: r) = some (String.ofList s, r) := by
    rw [quoted, reads_encoded h hquote _ trivial, many_stop (by simp)]
    simp
  have hlist : '"' :: (s.flatMap encode ++ ['"']) ++ r = '"' :: (s.flatMap encode ++ '"' :: r) := by
    simp
  rw [hlist, readToken, hquoted]
  rfl

theorem lexes_operator {t : Token} (hbs : ∀ b ∈ bs, isBlank b = true)
    (hc : c ∉ ['$', '.', '"'] ∧ isOther c = false ∧ isBlank c = false) {rest : List Char → Prop}
    (h : ∀ r, rest r → operator (c :: cs ++ r) = some (t, r)) : Lexes rest (bs ++ c :: cs) [t] := by
  refine Lexes.of_read hbs hc.2.2 fun r hr => ?_
  have hdigit : c.isDigit = false := by
    by_contra hdigit
    have hother := isOther_of_isDigit (Bool.not_eq_false _ ▸ hdigit)
    rw [hc.2.1] at hother
    cases hother
  have hne := hc.1
  simp only [List.mem_cons, List.not_mem_nil, or_false, not_or] at hne
  rw [← h r hr, List.cons_append, readToken]
  simp [hdigit, hc.2.1, hne.1, hne.2.1, hne.2.2]

theorem lexes_root (hbs : ∀ b ∈ bs, isBlank b = true) :
    Lexes (fun r => r.head? = some '.') (bs ++ ['$']) [.root] := by
  refine Lexes.of_read hbs (by decide) fun r hr => ?_
  cases r with
  | nil => cases hr
  | cons c r =>
    cases hr
    rfl

theorem lexes_dot : Lexes (fun r => r.head?.any Char.isDigit = false) ['.'] [.dot] := by
  have hbs : ∀ b ∈ ([] : List Char), isBlank b = true := by simp
  refine Lexes.of_read hbs (by decide) fun r hr => ?_
  have hother : isOther '.' = false := by decide
  simp [readToken, hr, hother]

end Jsonpath
