import Rekuest.Canonical.Form
import Rekuest.Coding.Digits
import Rekuest.Coding.Reader

/-!
# Rekuest.Canonical.Loads

The canonical encoding is a canonical form: one byte string for each JSON value, which is read back.

* `scanString`, `scanNumber`, `scanList`, `scanOnce`: the scanners of `json.decoder`.
* `loads`: `json.loads`, of a text in UTF-8. A float is refused, and so is half of a surrogate pair,
  which is no character.
* `Json.FloatFree`: no float is in a value. `sorted`: the members of every object by increasing key.
* `ReadBack`: what is written of a value is read back, sorted. `readBack`, `loads_canonicalizeArgs`.
* `canonical_form`: both directions.
-/

namespace Rekuest

mutual
/-- No float is in the value. -/
def Json.FloatFree : Json → Prop
  | .float _ => False
  | .arr items => FloatFreeItems items
  | .obj members => FloatFreeMembers members
  | _ => True

def Json.FloatFreeItems : List Json → Prop
  | [] => True
  | v :: vs => v.FloatFree ∧ Json.FloatFreeItems vs

def Json.FloatFreeMembers : Dict Json → Prop
  | [] => True
  | (_, v) :: members => v.FloatFree ∧ Json.FloatFreeMembers members
end

namespace Canonical

mutual
/-- The value with the members of every object by increasing key. -/
def sorted : Json → Json
  | .arr items => .arr (sortedItems items)
  | .obj members => .obj (sortMembers (sortedMembers members))
  | v => v

def sortedItems : List Json → List Json
  | [] => []
  | v :: vs => sorted v :: sortedItems vs

def sortedMembers : Dict Json → Dict Json
  | [] => []
  | (key, v) :: members => (key, sorted v) :: sortedMembers members
end

open Coding

/-! ## Scanners -/

/-- `WHITESPACE`. -/
def isSpace (c : Char) : Bool := [' ', '\t', '\n', '\r'].contains c

def skipSpace (cs : List Char) : List Char := cs.dropWhile isSpace

/-- `BACKSLASH`. -/
def backslash (c : Char) : Option Char :=
  if c = '"' ∨ c = '\\' ∨ c = '/' then some c
  else if c = 'b' then some '\x08'
  else if c = 'f' then some '\x0c'
  else if c = 'n' then some '\n'
  else if c = 'r' then some '\r'
  else if c = 't' then some '\t'
  else none

/-- `\uXXXX`, and the second half of a pair where this is the first. -/
def scanUnits (cs : List Char) : Option (Char × List Char) :=
  match codeUnit cs with
  | none => none
  | some (n, r) =>
    if 0xd800 ≤ n ∧ n < 0xdc00 then
      match codeUnit r with
      | none => none
      | some (m, r') =>
        if 0xdc00 ≤ m ∧ m < 0xe000 then
          some (Char.ofNat (0x10000 + (n - 0xd800) * 0x400 + (m - 0xdc00)), r')
        else none
    else if 0xdc00 ≤ n ∧ n < 0xe000 then none
    else some (Char.ofNat n, r)

/-- The next character of a string. A control character is refused. -/
def scanChar : List Char → Option (Char × List Char)
  | [] => none
  | c :: r =>
    if c = '\\' then
      match r with
      | [] => none
      | d :: r' => if d = 'u' then scanUnits (c :: r) else (backslash d).map fun c => (c, r')
    else if c.toNat < 32 then none
    else some (c, r)

/-- `scanstring`, behind the opening quote. -/
def scanString (cs : List Char) : Option (String × List Char) :=
  (many (fun r => r.head? = some '"') scanChar cs).map fun q => (String.ofList q.1, q.2.tail)

/-- A fraction or an exponent follows. -/
def goesOn : List Char → Bool
  | c :: d :: r =>
    if c = '.' then d.isDigit
    else (c = 'e' || c = 'E') && (d.isDigit || (d = '+' || d = '-') && r.head?.any Char.isDigit)
  | _ => false

/-- A zero stands alone in front. -/
def scanDigits (cs : List Char) : Option (Nat × List Char) :=
  let (ds, r) := if cs.head? = some '0' then (['0'], cs.tail) else digits cs
  if ds.isEmpty || goesOn r then none else some (Nat.ofDigitChars 10 ds 0, r)

/-- `NUMBER_RE`, of an integer. -/
def scanNumber (cs : List Char) : Option (Int × List Char) :=
  if cs.head? = some '-' then (scanDigits cs.tail).map fun p => (-(p.1 : Int), p.2)
  else (scanDigits cs).map fun p => ((p.1 : Int), p.2)

section

variable {α : Type}

/-- An item behind a comma. -/
def nextItem (read : List Char → Option (α × List Char)) (cs : List Char) :
    Option (α × List Char) :=
  match skipSpace cs with
  | [] => none
  | c :: r => if c = ',' then read (skipSpace r) else none

/-- `JSONArray` and `JSONObject`, behind the opening bracket. -/
def scanList (close : Char) (read : List Char → Option (α × List Char)) (cs : List Char) :
    Option (List α × List Char) :=
  if (skipSpace cs).head? = some close then some ([], (skipSpace cs).tail)
  else
    match read (skipSpace cs) with
    | none => none
    | some (a, r) =>
      (many (fun r => (skipSpace r).head? = some close) (nextItem read) r).map fun q =>
        (a :: q.1, (skipSpace q.2).tail)

end

/-- A key, a colon and a value. -/
def scanMember (read : List Char → Option (Json × List Char)) (cs : List Char) :
    Option ((String × Json) × List Char) := do
  if cs.head? = some '"' then
    let (key, r) ← scanString cs.tail
    if (skipSpace r).head? = some ':' then
      let (v, r) ← read (skipSpace (skipSpace r).tail)
      return ((key, v), r)
    else none
  else none

def scanWord (word : String) (v : Json) (cs : List Char) : Option (Json × List Char) :=
  if word.toList.isPrefixOf cs then some (v, cs.drop word.length) else none

/-- `scan_once`, of a value that is at most so deep. Of two members with one key the last counts. -/
def scanOnce : Nat → List Char → Option (Json × List Char)
  | 0, _ => none
  | _ + 1, [] => none
  | n + 1, c :: r =>
    if c = '"' then (scanString r).map fun p => (.str p.1, p.2)
    else if c = '{' then
      (scanList '}' (scanMember (scanOnce n)) r).map fun p => (.obj (Dict.update [] p.1), p.2)
    else if c = '[' then (scanList ']' (scanOnce n) r).map fun p => (.arr p.1, p.2)
    else if c = 'n' then scanWord "null" .null (c :: r)
    else if c = 't' then scanWord "true" (.bool true) (c :: r)
    else if c = 'f' then scanWord "false" (.bool false) (c :: r)
    else (scanNumber (c :: r)).map fun p => (.num p.1, p.2)

/-- `json.loads`. No value is deeper than its text is long. -/
def loads (bytes : ByteArray) : Option Json := do
  let s ← String.fromUTF8? bytes
  let (v, r) ← scanOnce (s.toList.length + 1) (skipSpace s.toList)
  if (skipSpace r).isEmpty then some v else none

example : (loads " [1, -20 ,0, [ ], \"a\\u00e9\\n\"] ".toUTF8).map dumps =
    some "[1,-20,0,[],\"aé\\n\"]".toList := by decide +kernel

/-! ## Strings -/

variable {c : Char} {cs r : List Char} {n : Nat}

theorem scanChar_escapeChar (c : Char) (r : List Char) :
    scanChar (escapeChar c ++ r) = some (c, r) := by
  unfold escapeChar
  split
  · rename_i h; subst h; rfl
  split
  · rename_i h; subst h; rfl
  split
  · rename_i h; subst h; rfl
  split
  · rename_i h; subst h; rfl
  split
  · rename_i h; subst h; rfl
  split
  · rename_i h; subst h; rfl
  split
  · rename_i h; subst h; rfl
  split
  · rename_i hcontrol
    have hunit : codeUnit ('\\' :: 'u' :: '0' :: '0' :: (c.toNat / 16).digitChar ::
        (c.toNat % 16).digitChar :: r) = some (c.toNat, r) := by
      have hhex := @codeUnit_hex r c.toNat (by omega)
      rw [show c.toNat / 0x1000 = 0 by omega, show c.toNat / 0x100 % 16 = 0 by omega,
        show c.toNat / 16 % 16 = c.toNat / 16 by omega] at hhex
      exact hhex
    show scanUnits ('\\' :: 'u' :: '0' :: '0' :: (c.toNat / 16).digitChar ::
        (c.toNat % 16).digitChar :: r) = some (c, r)
    rw [scanUnits, hunit]
    dsimp only
    rw [if_neg (by omega), if_neg (by omega), Char.ofNat_toNat]
  · rename_i _ hslash _ _ _ _ _ hcontrol
    simp [scanChar, hslash, hcontrol]

theorem escapeChar_head (c : Char) (r : List Char) : (escapeChar c ++ r).head? ≠ some '"' := by
  intro hhead
  obtain ⟨r', hr⟩ := List.head?_eq_some_iff.mp hhead
  exact escapeChar_ne_quote c r r' hr

/-- A string that was quoted, behind its quote. -/
theorem scanString_quote (s : String) (r : List Char) :
    scanString ((quote s).tail ++ r) = some (s, r) := by
  have hreads : Reads (fun r => r.head? = some '"') scanChar (fun _ => True)
      (s.toList.flatMap escapeChar) s.toList := by
    refine Reads.flatMap fun c _ => reads_one (fun r _ => ?_) (fun r _ => scanChar_escapeChar c r) ?_
    · simpa using escapeChar_head c r
    · intro hnil
      have hread := scanChar_escapeChar c []
      rw [hnil] at hread
      cases hread
  have hlist : (quote s).tail ++ r = s.toList.flatMap escapeChar ++ '"' :: r := by
    simp [quote]
  rw [scanString, hlist, hreads _ trivial, many_stop (by simp)]
  simp

/-! ## Numbers -/

theorem Ends.ne (h : Ends r) (hc : isWordChar c = true) : r.head? ≠ some c := by
  intro hhead
  have hno := h c hhead
  rw [hc] at hno
  cases hno

theorem Ends.goesOn (h : Ends r) : goesOn r = false := by
  cases r with
  | nil => rfl
  | cons c r =>
    have hdot : c ≠ '.' := fun hc => h.ne (by decide : isWordChar '.' = true) (by rw [hc]; rfl)
    have he : c ≠ 'e' := fun hc => h.ne (by decide : isWordChar 'e' = true) (by rw [hc]; rfl)
    have hE : c ≠ 'E' := fun hc => h.ne (by decide : isWordChar 'E' = true) (by rw [hc]; rfl)
    cases r with
    | nil => rfl
    | cons d r => simp [Canonical.goesOn, hdot, he, hE]

theorem isWordChar_of_isDigit (h : c.isDigit = true) : isWordChar c = true := by
  have hno : "\",:[]\x7b\x7d".toList.contains c = false :=
    not_contains (p := Char.isDigit) (by decide) h
  simp only [isWordChar, hno, Bool.not_false]

theorem scanDigits_toDigits (hr : Ends r) (n : Nat) :
    scanDigits (Nat.toDigits 10 n ++ r) = some (n, r) := by
  have hdigit : ∀ c ∈ r.head?, c.isDigit = false := by
    intro c hc
    rw [Bool.eq_false_iff]
    intro hdigit
    exact hr.ne (isWordChar_of_isDigit hdigit) hc
  have hvalue : Nat.ofDigitChars 10 (Nat.toDigits 10 n) 0 = n := Nat.ofDigitChars_ten_toDigits
  have hhead : (Nat.toDigits 10 n ++ r).head? = (Nat.toDigits 10 n).head? :=
    List.head?_append_of_ne_nil _ Nat.toDigits_ne_nil
  unfold scanDigits
  rw [hhead]
  by_cases hzero : (Nat.toDigits 10 n).head? = some '0'
  · have hn : n = 0 := eq_zero_of_head hzero
    subst hn
    rw [if_pos hzero]
    show (if _ || Canonical.goesOn r then none else _) = _
    rw [hr.goesOn]
    rfl
  · have hspan : digits (Nat.toDigits 10 n ++ r) = (Nat.toDigits 10 n, r) := by
      have hall := digits_toDigits (n := n)
      simp only [digits, Prod.mk.injEq] at hall
      rw [digits, (span_append hdigit).1, (span_append hdigit).2, hall.1, hall.2, List.nil_append]
    rw [if_neg hzero, hspan]
    simp [hr.goesOn, Nat.toDigits_ne_nil, hvalue]

theorem scanNumber_decimal (hr : Ends r) (n : Int) : scanNumber (decimal n ++ r) = some (n, r) := by
  cases n with
  | ofNat k =>
    have hminus : (Nat.toDigits 10 k ++ r).head? ≠ some '-' := by
      rw [List.head?_append_of_ne_nil _ Nat.toDigits_ne_nil]
      intro hhead
      have hdigit : '-'.isDigit = true := Nat.isDigit_of_mem_toDigits (b := 10) (n := k) (by decide)
        (by decide) (List.mem_of_mem_head? hhead)
      cases hdigit
    rw [decimal, scanNumber, if_neg hminus, scanDigits_toDigits hr]
    rfl
  | negSucc k =>
    show (scanDigits (Nat.toDigits 10 (k + 1) ++ r)).map _ = _
    rw [scanDigits_toDigits hr]
    rfl

/-! ## Lists -/

theorem skipSpace_cons (h : isSpace c = false) : skipSpace (c :: r) = c :: r := by
  simp [skipSpace, h]

/-- A text that begins with a character other than a space, and other than `close`. -/
def Opens (close : Char) (cs : List Char) : Prop :=
  ∃ c cs', cs = c :: cs' ∧ isSpace c = false ∧ c ≠ close

section

variable {α β : Type} {close : Char} {read : List Char → Option (β × List Char)}
  {encode : α → List Char} {value : α → β} {as : List α}

/-- The items behind the first one. -/
theorem many_nextItem (hclose : isSpace close = false ∧ isWordChar close = false ∧ close ≠ ',')
    (hopen : ∀ a ∈ as, Opens close (encode a))
    (hread : ∀ a ∈ as, ∀ r, Ends r → read (encode a ++ r) = some (value a, r)) :
    many (fun r => (skipSpace r).head? = some close) (nextItem read)
        (as.flatMap (fun a => ',' :: encode a) ++ close :: r) =
      some (as.map value, close :: r) := by
  induction as with
  | nil =>
    rw [List.flatMap_nil, List.nil_append, many_stop]
    · rfl
    · simp [skipSpace_cons hclose.1]
  | cons a as ih =>
    have hrest : Ends (as.flatMap (fun a => ',' :: encode a) ++ close :: r) := by
      cases as with
      | nil => exact ends_cons hclose.2.1
      | cons b as => exact ends_cons (by decide)
    have hlist : (a :: as).flatMap (fun a => ',' :: encode a) ++ close :: r =
        ',' :: (encode a ++ (as.flatMap (fun a => ',' :: encode a) ++ close :: r)) := by
      simp
    obtain ⟨c, cs, hcs, hspace, _⟩ := hopen a (by simp)
    have hnext : nextItem read (',' :: (encode a ++
        (as.flatMap (fun a => ',' :: encode a) ++ close :: r))) =
        some (value a, as.flatMap (fun a => ',' :: encode a) ++ close :: r) := by
      rw [nextItem, skipSpace_cons (by decide)]
      show read (skipSpace _) = _
      rw [hcs, List.cons_append, skipSpace_cons hspace, ← List.cons_append, ← hcs]
      exact hread a (by simp) _ hrest
    rw [hlist, many_read _ hnext, ih (fun a ha => hopen a (by simp [ha])) fun a ha =>
      hread a (by simp [ha])]
    · rfl
    · simp only [List.length_cons, List.length_append]
      omega
    · rw [skipSpace_cons (by decide)]
      simpa using hclose.2.2.symm

/-- Items with commas between them are read, item by item. -/
theorem scanList_joined (hclose : isSpace close = false ∧ isWordChar close = false ∧ close ≠ ',')
    (hopen : ∀ a ∈ as, Opens close (encode a))
    (hread : ∀ a ∈ as, ∀ r, Ends r → read (encode a ++ r) = some (value a, r)) :
    scanList close read (joined ',' (as.map encode) ++ close :: r) = some (as.map value, r) := by
  cases as with
  | nil =>
    show scanList close read (close :: r) = _
    rw [scanList, skipSpace_cons hclose.1]
    exact if_pos rfl
  | cons a as =>
    have hlist : joined ',' ((a :: as).map encode) ++ close :: r =
        encode a ++ (as.flatMap (fun a => ',' :: encode a) ++ close :: r) := by
      simp [joined, List.flatMap_map]
    have hrest : Ends (as.flatMap (fun a => ',' :: encode a) ++ close :: r) := by
      cases as with
      | nil => exact ends_cons hclose.2.1
      | cons b as => exact ends_cons (by decide)
    obtain ⟨c, cs, hcs, hspace, hne⟩ := hopen a (by simp)
    have hskip : ∀ r', skipSpace (encode a ++ r') = encode a ++ r' := by
      intro r'
      rw [hcs, List.cons_append, skipSpace_cons hspace]
    have hhead : ∀ r', (encode a ++ r').head? ≠ some close := by
      intro r' hhead
      rw [hcs] at hhead
      exact hne (Option.some.inj hhead)
    rw [hlist, scanList, hskip, if_neg (hhead _), hread a (by simp) _ hrest]
    dsimp only
    rw [many_nextItem hclose (fun a ha => hopen a (by simp [ha])) fun a ha =>
      hread a (by simp [ha])]
    show some (_, (skipSpace (close :: r)).tail) = _
    rw [skipSpace_cons hclose.1]
    rfl

end

/-! ## Sorted values -/

theorem floatFreeItems_iff {items : List Json} :
    Json.FloatFreeItems items ↔ ∀ v ∈ items, v.FloatFree := by
  induction items with
  | nil => simp [Json.FloatFreeItems]
  | cons v vs ih => simp [Json.FloatFreeItems, ih]

theorem floatFreeMembers_iff {members : Dict Json} :
    Json.FloatFreeMembers members ↔ ∀ m ∈ members, m.2.FloatFree := by
  induction members with
  | nil => simp [Json.FloatFreeMembers]
  | cons m ms ih =>
    obtain ⟨key, v⟩ := m
    simp only [Json.FloatFreeMembers, ih, List.forall_mem_cons]

theorem sortedItems_eq (items : List Json) : sortedItems items = items.map sorted := by
  induction items with
  | nil => rw [sortedItems]; rfl
  | cons v vs ih => rw [sortedItems, ih]; rfl

theorem sortedMembers_eq (members : Dict Json) :
    sortedMembers members = members.map fun m => (m.1, sorted m.2) := by
  induction members with
  | nil => rw [sortedMembers]; rfl
  | cons m ms ih =>
    obtain ⟨key, v⟩ := m
    rw [sortedMembers, ih]
    rfl

theorem sortMembers_sortMembers {α : Type} (members : Dict α) :
    sortMembers (sortMembers members) = sortMembers members :=
  List.Pairwise.insertionSort_eq (sorted_sortMembers members)

mutual
/-- A value and the sorted one are written in one way. -/
theorem dumps_sorted : (v : Json) → dumps (sorted v) = dumps v
  | .null => rfl
  | .bool _ => rfl
  | .num _ => rfl
  | .float _ => rfl
  | .str _ => rfl
  | .arr items => by
    rw [sorted, dumps, dumps, dumpsItems_eq, dumpsItems_eq, sortedItems_eq, List.map_map]
    exact congrArg (fun texts => '[' :: (joined ',' texts ++ [']']))
      (List.map_congr_left (dumpsItems_sorted items))
  | .obj members => by
    rw [sorted, dumps, dumps, dumpsMembers_eq, dumpsMembers_eq, sortMembers_map,
      sortMembers_sortMembers, ← sortMembers_map, sortedMembers_eq, List.map_map]
    exact congrArg (fun members : Dict (List Char) => '{' :: (joined ','
      ((sortMembers members).map fun m => quote m.1 ++ ':' :: m.2) ++ ['}']))
      (List.map_congr_left fun m hm => Prod.ext rfl (dumpsMembers_sorted members m hm))

theorem dumpsItems_sorted : (items : List Json) → ∀ v ∈ items, dumps (sorted v) = dumps v
  | [] => fun _ h => absurd h (List.not_mem_nil)
  | v :: vs => fun u h => (List.mem_cons.mp h).elim (fun hu => hu ▸ dumps_sorted v)
      (dumpsItems_sorted vs u)

theorem dumpsMembers_sorted : (members : Dict Json) → ∀ m ∈ members, dumps (sorted m.2) = dumps m.2
  | [] => fun _ h => absurd h (List.not_mem_nil)
  | (_, v) :: ms => fun m h => (List.mem_cons.mp h).elim (fun hm => hm ▸ dumps_sorted v)
      (dumpsMembers_sorted ms m)
end

/-! ## Reading back -/

/-- A value is read with any depth that its text is not longer than. -/
def ReadBack (v : Json) : Prop :=
  v.FloatFree → v.Distinct → ∀ (n : Nat) (r : List Char), (dumps v).length ≤ n → Ends r →
    scanOnce n (dumps v ++ r) = some (sorted v, r)

theorem length_le_joined {w : List Char} {ws : List (List Char)} (h : w ∈ ws) :
    w.length ≤ (joined ',' ws).length := by
  cases ws with
  | nil => cases h
  | cons u us =>
    rw [joined, List.length_append]
    rcases List.mem_cons.mp h with rfl | h
    · omega
    · have hle : (',' :: w).length ≤ (us.flatMap (',' :: ·)).length :=
        (List.sublist_flatten_of_mem (List.mem_map_of_mem h)).length_le
      rw [List.length_cons] at hle
      omega

theorem opens_dumps {v : Json} (h : v.FloatFree) {close : Char} (hclose : close = ']' ∨ close = '}') :
    Opens close (dumps v) := by
  have hdecimal : ∀ n, ∃ c cs, decimal n = c :: cs := by
    intro n
    cases n with
    | ofNat k => exact List.exists_cons_of_ne_nil (Nat.toDigits_ne_nil (b := 10) (n := k))
    | negSucc k => exact ⟨_, _, rfl⟩
  have hopens : ∀ {c : Char} {cs : List Char}, dumps v = c :: cs → isSpace c = false →
      c ≠ ']' ∧ c ≠ '}' → Opens close (dumps v) := by
    intro c cs hcs hspace hne
    refine ⟨c, cs, hcs, hspace, ?_⟩
    obtain rfl | rfl := hclose
    · exact hne.1
    · exact hne.2
  cases v with
  | null => exact hopens rfl (by decide) (by decide)
  | bool b =>
    cases b with
    | false => exact hopens rfl (by decide) (by decide)
    | true => exact hopens rfl (by decide) (by decide)
  | num n =>
    obtain ⟨c, cs, hcs⟩ := hdecimal n
    have hint : isIntChar c = true := decimal_chars n c (by rw [hcs]; simp)
    have hne : ∀ d : Char, isIntChar d = false → c ≠ d := by
      rintro d hd rfl
      rw [hint] at hd
      cases hd
    refine hopens hcs ?_ ⟨hne ']' (by decide), hne '}' (by decide)⟩
    exact not_contains (p := isIntChar) (by decide) hint
  | float x => exact absurd h id
  | str s => exact hopens (by rw [dumps, quote]) (by decide) (by decide)
  | arr items => exact hopens (by rw [dumps]) (by decide) (by decide)
  | obj members => exact hopens (by rw [dumps]) (by decide) (by decide)

/-- What is written without brackets or quotes is read with any depth. -/
theorem readBack_num (n : Int) : ReadBack (.num n) := by
  intro _ _ k r hk hr
  obtain ⟨c, cs, hcs⟩ : ∃ c cs, decimal n = c :: cs :=
    List.exists_cons_of_ne_nil (atom_ne_nil (v := .num n) rfl)
  have hint : isIntChar c = true := decimal_chars n c (by rw [hcs]; simp)
  have hne : ∀ d : Char, isIntChar d = false → c ≠ d := by
    rintro d hd rfl
    rw [hint] at hd
    cases hd
  have hnumber : scanNumber (c :: (cs ++ r)) = some (n, r) := by
    rw [← List.cons_append, ← hcs]
    exact scanNumber_decimal hr n
  cases k with
  | zero =>
    rw [dumps, hcs] at hk
    cases hk
  | succ k =>
    show scanOnce (k + 1) (decimal n ++ r) = _
    rw [hcs, List.cons_append, scanOnce, if_neg (hne _ (by decide)), if_neg (hne _ (by decide)),
      if_neg (hne _ (by decide)), if_neg (hne _ (by decide)), if_neg (hne _ (by decide)),
      if_neg (hne _ (by decide)), hnumber]
    rfl

theorem readBack_items {items : List Json} (h : ∀ v ∈ items, ReadBack v) : ReadBack (.arr items) := by
  intro hfree hdistinct n r hn hr
  simp only [Json.FloatFree, floatFreeItems_iff] at hfree
  simp only [Json.Distinct, distinctItems_iff] at hdistinct
  rw [dumps, dumpsItems_eq] at hn ⊢
  cases n with
  | zero => cases hn
  | succ n =>
    have hlist : scanList ']' (scanOnce n) (joined ',' (items.map dumps) ++ ']' :: r) =
        some (items.map sorted, r) := by
      refine scanList_joined (by decide) (fun v hv => opens_dumps (hfree v hv) (.inl rfl)) ?_
      intro v hv r' hr'
      refine h v hv (hfree v hv) (hdistinct v hv) n r' ?_ hr'
      have hle := length_le_joined (List.mem_map_of_mem (f := dumps) hv)
      simp only [List.length_cons, List.length_append] at hn
      omega
    rw [List.cons_append, List.append_assoc, List.singleton_append, scanOnce, if_neg (by decide),
      if_neg (by decide), if_pos rfl, hlist, sorted, sortedItems_eq]
    rfl

theorem scanMember_dumpMember {m : String × Json} (h : ReadBack m.2) (hfree : m.2.FloatFree)
    (hdistinct : m.2.Distinct) {n : Nat} (hn : (dumpMember m).length ≤ n) (hr : Ends r) :
    scanMember (scanOnce n) (dumpMember m ++ r) = some ((m.1, sorted m.2), r) := by
  obtain ⟨key, v⟩ := m
  obtain ⟨c, cs, hcs, hspace, _⟩ := opens_dumps hfree (.inl rfl)
  have hskip : skipSpace (dumps v ++ r) = dumps v ++ r := by
    rw [hcs, List.cons_append, skipSpace_cons hspace]
  have hvalue : scanOnce n (dumps v ++ r) = some (sorted v, r) := by
    refine h hfree hdistinct n r ?_ hr
    simp only [dumpMember, List.length_append, List.length_cons] at hn
    show (dumps v).length ≤ n
    omega
  have hkey : scanString ((quote key).tail ++ ':' :: (dumps v ++ r)) =
      some (key, ':' :: (dumps v ++ r)) := scanString_quote key _
  have hlist : dumpMember (key, v) ++ r = '"' :: ((quote key).tail ++ ':' :: (dumps v ++ r)) := by
    simp [dumpMember, quote]
  rw [hlist, scanMember]
  simp only [List.head?_cons, if_true, List.tail_cons, hkey, Option.bind_eq_bind, Option.bind_some,
    skipSpace_cons (show isSpace ':' = false by decide), hskip, hvalue]
  rfl

/-- The members of a `dict` are put into an empty one as they stand. -/
theorem update_nil {α : Type} {members : Dict α} (h : members.NodupKeys) :
    Dict.update [] members = members := by
  have hset : ∀ {d : Dict α} {key : String} {value : α}, key ∉ d.map Prod.fst →
      d.set key value = d ++ [(key, value)] := by
    intro d key value hkey
    induction d with
    | nil => rfl
    | cons m d ih =>
      obtain ⟨k, v⟩ := m
      rw [List.map_cons, List.mem_cons, not_or] at hkey
      rw [Dict.set, if_neg (Ne.symm hkey.1), ih hkey.2]
      rfl
  have hupdate : ∀ {d : Dict α}, Dict.NodupKeys (d ++ members) →
      Dict.update d members = d ++ members := by
    induction members with
    | nil => simp [Dict.update]
    | cons m members ih =>
      intro d hd
      have hm : m.1 ∉ d.map Prod.fst := by
        rw [Dict.NodupKeys, List.map_append, List.map_cons] at hd
        exact fun hmem => (List.disjoint_of_nodup_append hd) hmem (by simp)
      have hrest := ih (List.nodup_cons.mp h).2 (d := d ++ [m]) (by simpa using hd)
      rw [List.append_assoc, List.singleton_append] at hrest
      rw [← hrest, Dict.update, List.foldl_cons, hset hm]
      rfl
  exact hupdate h

theorem readBack_members {members : Dict Json} (h : ∀ m ∈ members, ReadBack m.2) :
    ReadBack (.obj members) := by
  intro hfree hdistinct n r hn hr
  simp only [Json.FloatFree, floatFreeMembers_iff] at hfree
  simp only [Json.Distinct, distinctMembers_iff] at hdistinct
  have hperm : (sortMembers members).Perm members := List.perm_insertionSort _ members
  rw [dumps_obj] at hn ⊢
  cases n with
  | zero => cases hn
  | succ n =>
    have hlist : scanList '}' (scanMember (scanOnce n))
        (joined ',' ((sortMembers members).map dumpMember) ++ '}' :: r) =
        some ((sortMembers members).map fun m => (m.1, sorted m.2), r) := by
      refine scanList_joined (by decide) (fun m _ => ⟨'"', _, rfl, by decide, by decide⟩) ?_
      intro m hm r' hr'
      have hmem : m ∈ members := hperm.mem_iff.mp hm
      refine scanMember_dumpMember (h m hmem) (hfree m hmem) (hdistinct.2 m hmem) ?_ hr'
      have hle := length_le_joined (List.mem_map_of_mem (f := dumpMember) hm)
      simp only [List.length_cons, List.length_append] at hn
      omega
    have hkeys : Dict.NodupKeys (sortMembers (sortedMembers members)) := by
      rw [sortedMembers_eq, sortMembers_map, Dict.NodupKeys, List.map_map]
      exact (hperm.map Prod.fst).nodup_iff.mpr hdistinct.1
    rw [List.cons_append, List.append_assoc, List.singleton_append, scanOnce, if_neg (by decide),
      if_pos rfl, hlist, Option.map_some, ← sortMembers_map, ← sortedMembers_eq, update_nil hkeys,
      sorted]

mutual
theorem readBack : (v : Json) → ReadBack v
  | .null => fun _ _ n r hn _ => by
    cases n with
    | zero => cases hn
    | succ n => rfl
  | .bool false => fun _ _ n r hn _ => by
    cases n with
    | zero => cases hn
    | succ n => rfl
  | .bool true => fun _ _ n r hn _ => by
    cases n with
    | zero => cases hn
    | succ n => rfl
  | .num n => readBack_num n
  | .float _ => fun hfree => absurd hfree id
  | .str s => fun _ _ n r hn _ => by
    cases n with
    | zero => cases hn
    | succ n =>
      have hlist : dumps (.str s) ++ r = '"' :: ((quote s).tail ++ r) := by rw [dumps]; rfl
      rw [hlist, scanOnce, if_pos rfl, scanString_quote]
      rfl
  | .arr items => readBack_items (readBackItems items)
  | .obj members => readBack_members (readBackMembers members)

theorem readBackItems : (items : List Json) → ∀ v ∈ items, ReadBack v
  | [] => fun _ h => absurd h (List.not_mem_nil)
  | v :: vs => fun u h => (List.mem_cons.mp h).elim (fun hu => hu ▸ readBack v) (readBackItems vs u)

theorem readBackMembers : (members : Dict Json) → ∀ m ∈ members, ReadBack m.2
  | [] => fun _ h => absurd h (List.not_mem_nil)
  | (_, v) :: ms => fun m h => (List.mem_cons.mp h).elim (fun hm => hm ▸ readBack v)
      (readBackMembers ms m)
end

theorem fromUTF8_toUTF8 (s : String) : String.fromUTF8? s.toUTF8 = some s :=
  dif_pos s.isValidUTF8

/-- What `json.loads` reads out of canonical bytes: the arguments, sorted. -/
theorem loads_canonicalizeArgs {args : Dict Json} (hfree : (Json.obj args).FloatFree)
    (hdistinct : (Json.obj args).Distinct) :
    loads (canonicalizeArgs args) = some (sorted (.obj args)) := by
  have hread : scanOnce ((dumps (.obj args)).length + 1) (dumps (.obj args)) =
      some (sorted (.obj args), []) := by
    have hnil : Ends [] := fun _ hc => by cases hc
    have h := readBack (.obj args) hfree hdistinct _ [] (Nat.le_succ _) hnil
    rwa [List.append_nil] at h
  have hskip : skipSpace (dumps (.obj args)) = dumps (.obj args) := by
    rw [dumps]
    exact skipSpace_cons (by decide)
  rw [loads, canonicalizeArgs, fromUTF8_toUTF8]
  simp only [Option.bind_eq_bind, Option.bind_some, String.toList_ofList, hskip, hread]
  rfl

/-! ## A canonical form -/

/-- **A canonical form.** Arguments have the same bytes where they are the same, and only there. So
one hash means the same arguments or a collision, and a verifier that reads the bytes of arguments
without floats and writes them again has the same bytes. -/
theorem canonical_form (x y : Dict Json) (hx : (Json.obj x).Distinct) (hy : (Json.obj y).Distinct) :
    (canonicalizeArgs x = canonicalizeArgs y ↔ Json.Same (.obj x) (.obj y)) ∧
      (∀ sha256, argsHash sha256 x = argsHash sha256 y → Json.Same (.obj x) (.obj y) ∨
        canonicalizeArgs x ≠ canonicalizeArgs y ∧
          sha256 (canonicalizeArgs x) = sha256 (canonicalizeArgs y)) ∧
      (∀ sha256, Json.Same (.obj x) (.obj y) → argsHash sha256 x = argsHash sha256 y) ∧
      ((Json.obj x).FloatFree → ∃ z, loads (canonicalizeArgs x) = some (.obj z) ∧
        Json.Same (.obj z) (.obj x) ∧ canonicalizeArgs z = canonicalizeArgs x) := by
  refine ⟨canonicalizeArgs_iff hx hy, fun sha256 hhash => ?_, fun sha256 hsame => ?_,
    fun hfree => ?_⟩
  · by_cases hbytes : canonicalizeArgs x = canonicalizeArgs y
    · exact .inl (same_of_canonicalizeArgs hbytes)
    · exact .inr ⟨hbytes, hhash⟩
  · rw [argsHash, argsHash, (canonicalizeArgs_iff hx hy).mpr hsame]
  · have hread := loads_canonicalizeArgs hfree hx
    have hbytes : canonicalizeArgs (sortMembers (sortedMembers x)) = canonicalizeArgs x := by
      rw [canonicalizeArgs, canonicalizeArgs, ← sorted, dumps_sorted]
    rw [sorted] at hread
    exact ⟨_, hread, same_of_canonicalizeArgs hbytes, hbytes⟩

/-- Members in another order, a boolean that is no number, and a verifier. -/
theorem order_irrelevant :
    canonicalizeArgs [("x", .num 1), ("mode", .str "fast")] =
        canonicalizeArgs [("mode", .str "fast"), ("x", .num 1)] ∧
      canonicalizeArgs [("x", .bool true)] ≠ canonicalizeArgs [("x", .num 1)] ∧
      ∃ z, loads (canonicalizeArgs [("x", .num 1), ("mode", .str "fast")]) = some (.obj z) ∧
        Json.Same (.obj z) (.obj [("x", .num 1), ("mode", .str "fast")]) ∧
        canonicalizeArgs z = canonicalizeArgs [("x", .num 1), ("mode", .str "fast")] := by
  have hone : ∀ v : Json, v.Distinct → (Json.obj [("x", v)]).Distinct := by
    intro v hv
    exact ⟨by simp [Dict.NodupKeys], hv, trivial⟩
  have htwo : ∀ v w : Json, v.Distinct → w.Distinct → ∀ k l : String, k ≠ l →
      (Json.obj [(k, v), (l, w)]).Distinct := by
    intro v w hv hw k l hkl
    exact ⟨by simp [Dict.NodupKeys, hkl], hv, hw, trivial⟩
  refine ⟨?_, ?_, ?_⟩
  · have hleft := htwo (.num 1) (.str "fast") trivial trivial "x" "mode" (by decide)
    have hright := htwo (.str "fast") (.num 1) trivial trivial "mode" "x" (by decide)
    refine (canonical_form _ _ hleft hright).1.mpr (.obj fun key => ?_)
    simp only [Dict.get?_cons]
    by_cases hx : key = "x"
    · rw [if_pos hx, if_neg (by simp [hx]), if_pos hx]
      exact .some (.num 1)
    · rw [if_neg hx, if_neg hx]
      by_cases hmode : key = "mode"
      · rw [if_pos hmode]
        exact .some (.str "fast")
      · rw [if_neg hmode]
        exact .none
  · intro hbytes
    have hleft := hone (.bool true) trivial
    have hright := hone (.num 1) trivial
    have hsame := (canonical_form _ _ hleft hright).1.mp hbytes
    cases hsame with
    | obj h =>
      have hx : Option.Rel Json.Same (some (.bool true)) (some (.num 1)) := h "x"
      cases hx with
      | some hvalue => cases hvalue
  · have hleft := htwo (.num 1) (.str "fast") trivial trivial "x" "mode" (by decide)
    exact (canonical_form _ _ hleft hleft).2.2.2 ⟨trivial, trivial, trivial⟩

end Canonical
end Rekuest
