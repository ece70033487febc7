import Mathlib.Data.List.Sort
import Rekuest.Coding.Words
import Rekuest.Settings

/-!
# Rekuest.Canonical

The canonical encoding of arguments, and their hash.

* `dumps`: `json.dumps` with sorted keys, compact separators and characters beyond ASCII as they are.
* `canonicalizeArgs`: its UTF-8 bytes. `argsHash`: their hash, by a hash function that is a parameter.
* `Json.Same`: equal as JSON values. An object is what it holds under each key.
* `same_of_canonicalizeArgs`: arguments of one text are the same.
-/

namespace Rekuest

/-- Equal as JSON values: arrays item by item, objects key by key in whatever order. -/
inductive Json.Same : Json → Json → Prop
  | null : Same .null .null
  | bool (b : Bool) : Same (.bool b) (.bool b)
  | num (n : Int) : Same (.num n) (.num n)
  | float (x : FloatRepr) : Same (.float x) (.float x)
  | str (s : String) : Same (.str s) (.str s)
  | arr {xs ys : List Json} (h : List.Forall₂ Same xs ys) : Same (.arr xs) (.arr ys)
  | obj {ms ns : Dict Json} (h : ∀ key, Option.Rel Same (ms.get? key) (ns.get? key)) :
    Same (.obj ms) (.obj ns)

namespace Canonical

open Coding

/-! ## The encoding -/

/-- `ESCAPE_DCT`: quotes, backslashes and control characters. -/
def escapeChar (c : Char) : List Char :=
  if c = '"' then ['\\', '"']
  else if c = '\\' then ['\\', '\\']
  else if c = '\n' then ['\\', 'n']
  else if c = '\r' then ['\\', 'r']
  else if c = '\t' then ['\\', 't']
  else if c = '\x08' then ['\\', 'b']
  else if c = '\x0c' then ['\\', 'f']
  else if c.toNat < 32 then
    ['\\', 'u', '0', '0', (c.toNat / 16).digitChar, (c.toNat % 16).digitChar]
  else [c]

def quote (s : String) : List Char := '"' :: (s.toList.flatMap escapeChar ++ ['"'])

/-- `int.__repr__`. -/
def decimal : Int → List Char
  | .ofNat n => Nat.toDigits 10 n
  | .negSucc n => '-' :: Nat.toDigits 10 (n + 1)

/-- The members by increasing key. -/
def sortMembers {α : Type} (members : Dict α) : Dict α := members.insertionSort fun m n => m.1 ≤ n.1

mutual
def dumps : Json → List Char
  | .null => "null".toList
  | .bool true => "true".toList
  | .bool false => "false".toList
  | .num n => decimal n
  | .float x => x.text.toList
  | .str s => quote s
  | .arr items => '[' :: (joined ',' (dumpsItems items) ++ [']'])
  | .obj members =>
    '{' :: (joined ',' ((sortMembers (dumpsMembers members)).map fun m =>
      quote m.1 ++ ':' :: m.2) ++ ['}'])

def dumpsItems : List Json → List (List Char)
  | [] => []
  | v :: vs => dumps v :: dumpsItems vs

def dumpsMembers : Dict Json → Dict (List Char)
  | [] => []
  | (key, v) :: members => (key, dumps v) :: dumpsMembers members
end

def canonicalizeArgs (args : Dict Json) : ByteArray := (String.ofList (dumps (.obj args))).toUTF8

def argsHash (sha256 : ByteArray → String) (args : Dict Json) : String :=
  sha256 (canonicalizeArgs args)

/-! ## Strings -/

def hexValue (c : Char) : Nat := if c.isDigit then c.toNat - 48 else c.toNat - 87

def unescape (c : Char) : Char :=
  if c = 'n' then '\n' else if c = 'r' then '\r' else if c = 't' then '\t'
  else if c = 'b' then '\x08' else if c = 'f' then '\x0c' else c

/-- The next character of a string, behind its escape. -/
def readChar : List Char → Option (Char × List Char)
  | '\\' :: 'u' :: '0' :: '0' :: a :: b :: r =>
    some (Char.ofNat (16 * hexValue a + hexValue b), r)
  | '\\' :: c :: r => some (unescape c, r)
  | c :: r => some (c, r)
  | [] => none

theorem hexValue_digitChar {n : Nat} (h : n < 16) : hexValue n.digitChar = n := by
  have hall : ∀ n : Fin 16, hexValue (n : Nat).digitChar = n := by decide
  exact hall ⟨n, h⟩

theorem readChar_escapeChar (c : Char) (r : List Char) :
    readChar (escapeChar c ++ r) = some (c, r) := by
  unfold escapeChar
  split
  · rename_i h; subst h; rfl
  split
  · rename_i h; subst h; rfl
  split
  · rename_i h; subst h; rfl
  split
  · rename_i h; subst h; rfl
  split
  · rename_i h; subst h; rfl
  split
  · rename_i h; subst h; rfl
  split
  · rename_i h; subst h; rfl
  split
  · rename_i h
    show some (Char.ofNat (16 * hexValue _ + hexValue _), r) = some (c, r)
    rw [hexValue_digitChar (by omega), hexValue_digitChar (by omega), Nat.div_add_mod,
      Char.ofNat_toNat]
  · rename_i _ hslash _ _ _ _ _ _
    rw [List.singleton_append, readChar]
    · exact fun _ _ _ h => absurd h hslash
    · exact fun _ _ h => absurd h hslash

theorem escapeChar_ne_quote (c : Char) (r r' : List Char) : escapeChar c ++ r ≠ '"' :: r' := by
  intro heq
  have hread := readChar_escapeChar c r
  rw [heq] at hread
  cases hread
  cases heq

theorem quote_told (s : String) : Told anyRest quote Eq s := by
  have hchars : Told anyRest (fun cs : List Char => cs.flatMap escapeChar ++ ['"'])
      (List.Forall₂ Eq) s.toList :=
    @Told.flatMap _ _ anyRest _ _ _ _ escapeChar_ne_quote (fun _ _ => trivial)
      fun _ _ => .of_read readChar_escapeChar
  intro t r r' _ _ heq
  obtain ⟨hst, hr⟩ := hchars t.toList r r' trivial trivial (List.cons.inj heq).2
  rw [List.forall₂_eq_eq_eq] at hst
  exact ⟨String.toList_inj.mp hst, hr⟩

/-! ## Words -/

/-- A character of the values that are written as one word. -/
def isWordChar (c : Char) : Bool := !"\",:[]{}".toList.contains c

def isAtom : Json → Bool
  | .str _ => false
  | .arr _ => false
  | .obj _ => false
  | _ => true

/-- The characters of an integer. -/
def isIntChar (c : Char) : Bool := c.isDigit || c = '-'

theorem decimal_chars (n : Int) : ∀ c ∈ decimal n, isIntChar c = true := by
  have hdigits : ∀ k, ∀ c ∈ Nat.toDigits 10 k, isIntChar c = true := by
    intro k c hc
    simp [isIntChar, Nat.isDigit_of_mem_toDigits (by decide) (by decide) hc]
  cases n with
  | ofNat k => exact hdigits k
  | negSucc k =>
    intro c hc
    obtain rfl | hc := List.mem_cons.mp hc
    · rfl
    · exact hdigits _ c hc

theorem toDigits_inj {m n : Nat} (h : Nat.toDigits 10 m = Nat.toDigits 10 n) : m = n := by
  rw [← Nat.ofDigitChars_ten_toDigits (n := m), h, Nat.ofDigitChars_ten_toDigits]

theorem decimal_inj {m n : Int} (h : decimal m = decimal n) : m = n := by
  have hsign : ∀ j k, Nat.toDigits 10 j ≠ '-' :: Nat.toDigits 10 k := by
    intro j k heq
    have hd : '-'.isDigit = true := Nat.isDigit_of_mem_toDigits (b := 10) (n := j) (by decide)
      (by decide) (by simp [heq])
    cases hd
  cases m with
  | ofNat j =>
    cases n with
    | ofNat k => rw [toDigits_inj h]
    | negSucc k => exact absurd h (hsign j (k + 1))
  | negSucc j =>
    cases n with
    | ofNat k => exact absurd h.symm (hsign k (j + 1))
    | negSucc k =>
      have hjk := toDigits_inj (List.cons.inj h).2
      rw [show j = k by omega]

/-- A character of one kind is none of a list of another. -/
theorem not_contains {p : Char → Bool} {cs : List Char} {c : Char}
    (hcs : cs.all (fun c => !p c) = true) (hc : p c = true) : cs.contains c = false := by
  rw [Bool.eq_false_iff]
  intro hmem
  have hno := List.all_eq_true.mp hcs c (List.contains_iff_mem.mp hmem)
  simp [hc] at hno

theorem atom_chars {v : Json} (hv : isAtom v = true) : ∀ c ∈ dumps v, isWordChar c = true := by
  have hkind : ∀ {p : Char → Bool} {cs : List Char}, (∀ c ∈ cs, p c = true) →
      "\",:[]{}".toList.all (fun c => !p c) = true → ∀ c ∈ cs, isWordChar c = true := by
    intro p cs hcs hp c hc
    simp only [isWordChar, not_contains hp (hcs c hc), Bool.not_false]
  cases v with
  | null => exact List.all_eq_true.mp (by decide : (dumps .null).all isWordChar = true)
  | bool b =>
    cases b with
    | false => exact List.all_eq_true.mp (by decide : (dumps (.bool false)).all isWordChar = true)
    | true => exact List.all_eq_true.mp (by decide : (dumps (.bool true)).all isWordChar = true)
  | num n => exact hkind (decimal_chars n) (by decide)
  | float x => exact hkind (List.all_eq_true.mp x.chars) (by decide)
  | _ => cases hv

theorem atom_inj {v w : Json} (hv : isAtom v = true) (hw : isAtom w = true)
    (h : dumps v = dumps w) : v = w := by
  have hint : ∀ {n : Int} {cs : List Char}, cs = decimal n → cs.all isIntChar = true := by
    intro n cs hcs
    rw [hcs]
    exact List.all_eq_true.mpr (decimal_chars n)
  have hfloat : ∀ {x : FloatRepr} {cs : List Char}, cs = x.text.toList →
      cs.all isFloatChar = true := by
    intro x cs hcs
    rw [hcs]
    exact x.chars
  have hmarked : ∀ {n : Int} {x : FloatRepr}, decimal n ≠ x.text.toList := by
    intro n x heq
    obtain ⟨c, hc, hmark⟩ := List.any_eq_true.mp x.marked
    have hno : isIntChar c = true := decimal_chars n c (by rw [heq]; exact hc)
    have hno' : isFloatMark c = false := not_contains (p := isIntChar) (by decide) hno
    rw [hno'] at hmark
    cases hmark
  cases v with
  | null =>
    cases w with
    | null => rfl
    | bool b => cases b <;> exact absurd h (by decide)
    | num n => exact absurd (hint h) (by decide)
    | float x => exact absurd (hfloat h) (by decide)
    | _ => cases hw
  | bool b =>
    cases w with
    | null => cases b <;> exact absurd h (by decide)
    | bool b' =>
      cases b <;> cases b' <;> first | rfl | exact absurd h (by decide)
    | num n => cases b <;> exact absurd (hint h) (by decide)
    | float x => cases b <;> exact absurd (hfloat h) (by decide)
    | _ => cases hw
  | num n =>
    cases w with
    | null => exact absurd (hint h.symm) (by decide)
    | bool b => cases b <;> exact absurd (hint h.symm) (by decide)
    | num n' => rw [decimal_inj h]
    | float x => exact absurd h hmarked
    | _ => cases hw
  | float x =>
    cases w with
    | null => exact absurd (hfloat h.symm) (by decide)
    | bool b => cases b <;> exact absurd (hfloat h.symm) (by decide)
    | num n => exact absurd h.symm hmarked
    | float x' =>
      obtain ⟨s, _, _⟩ := x
      obtain ⟨s', _, _⟩ := x'
      have hss : s = s' := String.toList_inj.mp h
      subst hss
      rfl
    | _ => cases hw
  | _ => cases hv

theorem atom_same {v : Json} (hv : isAtom v = true) : Json.Same v v := by
  cases v with
  | null => exact .null
  | bool b => exact .bool b
  | num n => exact .num n
  | float x => exact .float x
  | _ => cases hv

/-! ## Values -/

/-- A value other than a word begins with a mark. -/
theorem dumps_mark {v : Json} (hv : isAtom v = false) :
    ∃ c cs, dumps v = c :: cs ∧ isWordChar c = false := by
  cases v with
  | str s => exact ⟨'"', _, by rw [dumps, quote], by decide⟩
  | arr items => exact ⟨'[', _, by rw [dumps], by decide⟩
  | obj members => exact ⟨'{', _, by rw [dumps], by decide⟩
  | _ => cases hv

theorem atom_ne_nil {v : Json} (hv : isAtom v = true) : dumps v ≠ [] := by
  cases v with
  | null => decide
  | bool b => cases b <;> decide
  | num n =>
    cases n with
    | ofNat k => exact Nat.toDigits_ne_nil
    | negSucc k => exact List.cons_ne_nil _ _
  | float x =>
    intro h
    have hany := x.marked
    rw [show x.text.toList = [] from h] at hany
    cases hany
  | _ => cases hv

/-- A word and another value differ in their first character. -/
theorem atom_append_ne {v w : Json} (hv : isAtom v = true) (hw : isAtom w = false)
    (r r' : List Char) : dumps v ++ r ≠ dumps w ++ r' := by
  intro heq
  obtain ⟨d, ds, hd, hmark⟩ := dumps_mark hw
  cases hv' : dumps v with
  | nil => exact atom_ne_nil hv hv'
  | cons c cs =>
    rw [hv', hd] at heq
    have hc := atom_chars hv c (by rw [hv']; simp)
    rw [(List.cons.inj heq).1, hmark] at hc
    cases hc

/-- A value is followed by the end, or by what closes or separates. -/
def Ends (r : List Char) : Prop := ∀ c ∈ r.head?, isWordChar c = false

theorem atom_told {v : Json} (hv : isAtom v = true) : Told Ends dumps Json.Same v := by
  intro w r r' hr hr' heq
  cases hw : isAtom w with
  | true =>
    obtain ⟨hvw, hrr⟩ := word_append (atom_chars hv) (atom_chars hw) hr hr' heq
    cases atom_inj hv hw hvw
    exact ⟨atom_same hv, hrr⟩
  | false => exact absurd heq (atom_append_ne hv hw r r')

theorem dumpsItems_eq (items : List Json) : dumpsItems items = items.map dumps := by
  induction items with
  | nil => rw [dumpsItems]; rfl
  | cons v vs ih => rw [dumpsItems, ih]; rfl

theorem dumpsMembers_eq (members : Dict Json) :
    dumpsMembers members = members.map fun m => (m.1, dumps m.2) := by
  induction members with
  | nil => rw [dumpsMembers]; rfl
  | cons m ms ih =>
    obtain ⟨key, v⟩ := m
    rw [dumpsMembers, ih]
    rfl

theorem sortMembers_map {α β : Type} (f : α → β) (members : Dict α) :
    sortMembers (members.map fun m => (m.1, f m.2)) =
      (sortMembers members).map fun m => (m.1, f m.2) := by
  unfold sortMembers
  rw [List.map_insertionSort (r := fun m n : String × α => m.1 ≤ n.1)
    (s := fun m n : String × β => m.1 ≤ n.1)]
  exact fun _ _ _ _ => Iff.rfl

/-- A member is put in behind members of smaller keys only. -/
theorem get?_orderedInsert {α : Type} (m : String × α) (members : Dict α) (key : String) :
    Dict.get? (members.orderedInsert (fun m n => m.1 ≤ n.1) m) key =
      if key = m.1 then some m.2 else Dict.get? members key := by
  induction members with
  | nil => exact Dict.get?_cons m [] key
  | cons n ns ih =>
    simp only [List.orderedInsert]
    by_cases hle : m.1 ≤ n.1
    · rw [if_pos hle, Dict.get?_cons]
    · rw [if_neg hle, Dict.get?_cons, Dict.get?_cons, ih]
      have hne : n.1 ≠ m.1 := fun h => hle (h ▸ String.le_refl _)
      by_cases hn : key = n.1
      · rw [if_pos hn, if_pos hn, if_neg fun h => hne (hn.symm.trans h)]
      · rw [if_neg hn, if_neg hn]

/-- Sorting does not change what is found under a key, also where a key comes twice. -/
theorem get?_sortMembers {α : Type} (members : Dict α) (key : String) :
    (sortMembers members).get? key = members.get? key := by
  induction members with
  | nil => rfl
  | cons m ms ih =>
    have hsort : sortMembers (m :: ms) =
        (sortMembers ms).orderedInsert (fun m n => m.1 ≤ n.1) m := rfl
    rw [hsort, get?_orderedInsert, ih, Dict.get?_cons]

/-- A member as it is written. -/
def dumpMember (m : String × Json) : List Char := quote m.1 ++ ':' :: dumps m.2

theorem dumps_obj (members : Dict Json) : dumps (.obj members) =
    '{' :: (joined ',' ((sortMembers members).map dumpMember) ++ ['}']) := by
  rw [dumps, dumpsMembers_eq, sortMembers_map, List.map_map]
  rfl

theorem ends_cons {c : Char} {r : List Char} (h : isWordChar c = false) : Ends (c :: r) := by
  intro d hd
  cases hd
  exact h

theorem dumps_append_ne {v : Json} {c : Char} (hc : c = ']' ∨ c = '}') (r r' : List Char) :
    dumps v ++ r ≠ c :: r' := by
  have hmark : isWordChar c = false := by obtain rfl | rfl := hc <;> decide
  intro heq
  cases hv : isAtom v with
  | true =>
    cases hd : dumps v with
    | nil => exact atom_ne_nil hv hd
    | cons d ds =>
      rw [hd] at heq
      have hword := atom_chars hv d (by rw [hd]; simp)
      rw [(List.cons.inj heq).1, hmark] at hword
      cases hword
  | false =>
    cases v with
    | str s =>
      rw [dumps, quote] at heq
      obtain rfl | rfl := hc <;> exact absurd (List.cons.inj heq).1 (by decide)
    | arr items =>
      rw [dumps] at heq
      obtain rfl | rfl := hc <;> exact absurd (List.cons.inj heq).1 (by decide)
    | obj members =>
      rw [dumps] at heq
      obtain rfl | rfl := hc <;> exact absurd (List.cons.inj heq).1 (by decide)
    | _ => cases hv

theorem dumpMember_told {m : String × Json} (h : Told Ends dumps Json.Same m.2) :
    Told Ends dumpMember (fun m n => m.1 = n.1 ∧ Json.Same m.2 n.2) m :=
  (quote_told m.1).pair (h.cons (c := ':')) fun _ _ _ => trivial

/-- Objects that agree member by member agree under each key. -/
theorem rel_get? {ms ns : Dict Json}
    (h : List.Forall₂ (fun m n => m.1 = n.1 ∧ Json.Same m.2 n.2) ms ns) (key : String) :
    Option.Rel Json.Same (ms.get? key) (ns.get? key) := by
  induction h with
  | nil => exact .none
  | @cons m n ms ns hmn _ ih =>
    obtain ⟨hkey, hsame⟩ := hmn
    rw [Dict.get?_cons, Dict.get?_cons, ← hkey]
    by_cases hk : key = m.1
    · rw [if_pos hk, if_pos hk]
      exact .some hsame
    · rw [if_neg hk, if_neg hk]
      exact ih

theorem items_told {items : List Json} (h : ∀ v ∈ items, Told Ends dumps Json.Same v) :
    Told anyRest (fun items => dumps (.arr items)) (List.Forall₂ Json.Same) items := by
  have hitems : Told anyRest (fun items : List Json => joined ',' (items.map dumps) ++ [']'])
      (List.Forall₂ Json.Same) items := by
    refine Told.joined (by decide) (fun v => dumps_append_ne (.inl rfl)) (fun c r hc => ?_) h
    obtain rfl | rfl := hc <;> exact ends_cons (by decide)
  intro items' r r' hr hr' heq
  simp only [dumps, dumpsItems_eq] at heq
  exact hitems items' r r' hr hr' (List.cons.inj heq).2

theorem members_told {members : Dict Json} (h : ∀ m ∈ members, Told Ends dumps Json.Same m.2) :
    Told anyRest (fun members => dumps (.obj members))
      (fun ms ns : Dict Json => ∀ key, Option.Rel Json.Same (ms.get? key) (ns.get? key))
      members := by
  have hmembers : Told anyRest (fun members : Dict Json =>
      joined ',' (members.map dumpMember) ++ ['}'])
      (List.Forall₂ fun m n => m.1 = n.1 ∧ Json.Same m.2 n.2) (sortMembers members) := by
    refine Told.joined (by decide) (fun m r r' heq => ?_) (fun c r hc => ?_) fun m hm =>
      dumpMember_told (h m ?_)
    · exact absurd (List.cons.inj heq).1 (by decide)
    · obtain rfl | rfl := hc <;> exact ends_cons (by decide)
    · exact (List.perm_insertionSort _ members).mem_iff.mp hm
  intro members' r r' hr hr' heq
  simp only [dumps_obj] at heq
  obtain ⟨hall, hrr⟩ := hmembers (sortMembers members') r r' hr hr' (List.cons.inj heq).2
  refine ⟨fun key => ?_, hrr⟩
  rw [← get?_sortMembers members, ← get?_sortMembers members']
  exact rel_get? hall key

/-- Values of different kinds begin differently. -/
theorem kinds_told {v : Json} (hv : isAtom v = false)
    (h : ∀ w r r', isAtom w = false → Ends r → Ends r' → dumps v ++ r = dumps w ++ r' →
      Json.Same v w ∧ r = r') : Told Ends dumps Json.Same v := by
  intro w r r' hr hr' heq
  cases hw : isAtom w with
  | true => exact absurd heq.symm (atom_append_ne hw hv r' r)
  | false => exact h w r r' hw hr hr' heq

mutual
/-- **Told apart.** Values whose encodings read the same, with something after them, are the same. -/
theorem dumps_told : (v : Json) → Told Ends dumps Json.Same v
  | .null => atom_told rfl
  | .bool _ => atom_told rfl
  | .num _ => atom_told rfl
  | .float _ => atom_told rfl
  | .str s => kinds_told rfl fun w r r' hw _ _ heq => by
    cases w with
    | str t =>
      rw [dumps, dumps] at heq
      obtain ⟨rfl, hrr⟩ := quote_told s t r r' trivial trivial heq
      exact ⟨.str s, hrr⟩
    | arr items => rw [dumps, dumps] at heq; exact absurd (List.cons.inj heq).1 (by decide)
    | obj members => rw [dumps, dumps] at heq; exact absurd (List.cons.inj heq).1 (by decide)
    | _ => cases hw
  | .arr items => kinds_told rfl fun w r r' hw _ _ heq => by
    cases w with
    | str t => rw [dumps, dumps] at heq; exact absurd (List.cons.inj heq).1 (by decide)
    | arr items' =>
      obtain ⟨hall, hrr⟩ := items_told (dumpsItems_told items) items' r r' trivial trivial heq
      exact ⟨.arr hall, hrr⟩
    | obj members => rw [dumps, dumps] at heq; exact absurd (List.cons.inj heq).1 (by decide)
    | _ => cases hw
  | .obj members => kinds_told rfl fun w r r' hw _ _ heq => by
    cases w with
    | str t => rw [dumps, dumps] at heq; exact absurd (List.cons.inj heq).1 (by decide)
    | arr items => rw [dumps, dumps] at heq; exact absurd (List.cons.inj heq).1 (by decide)
    | obj members' =>
      obtain ⟨hall, hrr⟩ :=
        members_told (dumpsMembers_told members) members' r r' trivial trivial heq
      exact ⟨.obj hall, hrr⟩
    | _ => cases hw

theorem dumpsItems_told : (items : List Json) → ∀ v ∈ items, Told Ends dumps Json.Same v
  | [] => fun _ h => absurd h (List.not_mem_nil)
  | v :: vs => fun u h => (List.mem_cons.mp h).elim (fun hu => hu ▸ dumps_told v)
      (dumpsItems_told vs u)

theorem dumpsMembers_told :
    (members : Dict Json) → ∀ m ∈ members, Told Ends dumps Json.Same m.2
  | [] => fun _ h => absurd h (List.not_mem_nil)
  | (_, v) :: ms => fun m h => (List.mem_cons.mp h).elim (fun hm => hm ▸ dumps_told v)
      (dumpsMembers_told ms m)
end

theorem same_of_canonicalizeArgs {x y : Dict Json} (h : canonicalizeArgs x = canonicalizeArgs y) :
    Json.Same (.obj x) (.obj y) := by
  have htext := String.ofList_inj.mp (String.toByteArray_inj.mp h)
  have hnil : Ends [] := fun _ hc => by cases hc
  exact (dumps_told (.obj x) (.obj y) [] [] hnil hnil (by rw [htext])).1

end Canonical
end Rekuest
