/-!
# Rekuest.Models.Json

JSON values, and dictionaries with string keys in insertion order.

* `Json.asJsonb`: what a `jsonb` column gives back of a value.
-/

namespace Rekuest

/-- The characters of `float.__repr__`, those of `NaN` and `Infinity` among them. -/
def isFloatChar (c : Char) : Bool := "0123456789+-.eNaInfity".toList.contains c

/-- The characters of which a float has one, and no integer any. -/
def isFloatMark (c : Char) : Bool := ".eNI".toList.contains c

/-- A Python `float`, as `float.__repr__` writes it. -/
structure FloatRepr where
  text : String
  chars : text.toList.all isFloatChar = true
  marked : text.toList.any isFloatMark = true
  deriving DecidableEq

inductive Json where
  | null
  | bool (b : Bool)
  | num (n : Int)
  | float (x : FloatRepr)
  | str (s : String)
  | arr (items : List Json)
  | obj (members : List (String × Json))
  deriving Inhabited

/-! ## Columns -/

/-- The integer that a float is written as, digits and a positive exponent. -/
def FloatRepr.whole? (x : FloatRepr) : Option Int :=
  let (sign, cs) := match x.text.toList with
    | '-' :: cs => (-1, cs)
    | cs => (1, cs)
  match cs.splitOn 'e' with
  | [mantissa, '+' :: exponent] =>
    let digits := mantissa.filter Char.isDigit
    let places := (mantissa.dropWhile (· != '.')).tail.length
    let shift := Nat.ofDigitChars 10 exponent 0
    if places ≤ shift then
      some (sign * (Nat.ofDigitChars 10 (digits ++ List.replicate (shift - places) '0') 0 : Nat))
    else none
  | _ => none

/-- `numeric` has no exponents and no negative zero. -/
def FloatRepr.asJsonb (x : FloatRepr) : Json :=
  match x.whole? with
  | some n => .num n
  | none => if x.text = "-0.0" then .float ⟨"0.0", by decide, by decide⟩ else .float x

mutual

/-- The value that is read from a `jsonb` column where this one was stored. The order of the keys,
which is not kept either, is none of a dictionary's. -/
def Json.asJsonb : Json → Json
  | .float x => x.asJsonb
  | .arr items => .arr (asJsonbItems items)
  | .obj members => .obj (asJsonbMembers members)
  | j => j

def Json.asJsonbItems : List Json → List Json
  | [] => []
  | j :: items => j.asJsonb :: asJsonbItems items

def Json.asJsonbMembers : List (String × Json) → List (String × Json)
  | [] => []
  | (key, j) :: members => (key, j.asJsonb) :: asJsonbMembers members

end

/-- A Python `dict` with string keys, in insertion order. -/
abbrev Dict (α : Type) := List (String × α)

namespace Dict

variable {α : Type}

def get? (d : Dict α) (key : String) : Option α := d.lookup key

def has (d : Dict α) (key : String) : Bool := (d.get? key).isSome

/-- `d[key] = value`: in place where the key is there, at the end where it is new. -/
def set : Dict α → String → α → Dict α
  | [], key, value => [(key, value)]
  | (k, v) :: d, key, value => if k = key then (k, value) :: d else (k, v) :: set d key value

/-- `d.update(other)`. -/
def update (d other : Dict α) : Dict α := other.foldl (fun d kv => d.set kv.1 kv.2) d

theorem get?_cons (m : String × α) (d : Dict α) (key : String) :
    get? (m :: d) key = if key = m.1 then some m.2 else get? d key := by
  obtain ⟨k, v⟩ := m
  by_cases h : key = k
  · simp [get?, h]
  · simp [get?, List.lookup_cons, h, beq_eq_false_iff_ne.mpr h]

theorem get?_set (d : Dict α) (key : String) (value : α) (key' : String) :
    (d.set key value).get? key' = if key' = key then some value else d.get? key' := by
  induction d with
  | nil => exact get?_cons (key, value) [] key'
  | cons m d ih =>
    obtain ⟨k, v⟩ := m
    by_cases hk : k = key
    · subst hk
      by_cases h : key' = k <;> simp [set, get?_cons, h]
    · by_cases h : key' = k
      · subst h
        simp [set, hk, get?_cons]
      · simp [set, hk, get?_cons, ih, h]

/-- Two members that are there already are set in either order. -/
theorem set_comm {d : Dict α} {key key' : String} (hne : key ≠ key') (hkey : d.has key)
    (hkey' : d.has key') (value value' : α) :
    (d.set key value).set key' value' = (d.set key' value').set key value := by
  induction d with
  | nil => cases hkey
  | cons m d ih =>
    obtain ⟨k, v⟩ := m
    simp only [has, get?_cons] at hkey hkey'
    by_cases hk : k = key
    · subst hk
      simp [set, hne]
    · by_cases hk' : k = key'
      · subst hk'
        simp [set, hne.symm]
      · rw [if_neg (Ne.symm hk)] at hkey
        rw [if_neg (Ne.symm hk')] at hkey'
        simp only [set, hk, hk', if_false]
        rw [ih hkey hkey']

theorem forall_set {P : α → Prop} {d : Dict α} {key : String} {value : α}
    (hd : ∀ m ∈ d, P m.2) (hv : P value) : ∀ m ∈ d.set key value, P m.2 := by
  induction d with
  | nil => simpa [set] using hv
  | cons m d ih =>
    have hrest := ih fun m hm => hd m (by simp [hm])
    have hhead := hd m (by simp)
    simp only [set]
    split
    · simpa [hv] using fun a b hm => hd (a, b) (by simp [hm])
    · simpa [hhead] using fun a b hm => hrest (a, b) hm

theorem forall_update {P : α → Prop} {d other : Dict α} (hd : ∀ m ∈ d, P m.2)
    (ho : ∀ m ∈ other, P m.2) : ∀ m ∈ d.update other, P m.2 := by
  unfold update
  induction other generalizing d with
  | nil => exact hd
  | cons m other ih =>
    exact ih (forall_set hd (ho m (by simp))) fun m hm => ho m (by simp [hm])

theorem mem_of_get? {d : Dict α} {key : String} {value : α} (h : d.get? key = some value) :
    (key, value) ∈ d := by
  induction d with
  | nil => cases h
  | cons m d ih =>
    rw [get?_cons] at h
    split at h
    · rename_i hkey
      cases h
      rw [hkey]
      exact List.mem_cons_self
    · exact List.mem_cons_of_mem _ (ih h)

/-! ## Keys -/

section

variable {d other : Dict α} {key key' : String} {value : α} {m : String × α}

/-- The keys of a `dict`. -/
def NodupKeys (d : Dict α) : Prop := (d.map Prod.fst).Nodup

theorem get?_eq_none_iff : d.get? key = none ↔ key ∉ d.map Prod.fst := by
  induction d with
  | nil => simp [get?]
  | cons m d ih =>
    rw [get?_cons]
    by_cases hkey : key = m.1
    · simp [hkey]
    · simp [hkey, ih]

theorem get?_of_mem (h : NodupKeys d) (hm : (key, value) ∈ d) : d.get? key = some value := by
  induction d with
  | nil => cases hm
  | cons m d ih =>
    obtain ⟨hnew, hrest⟩ := List.nodup_cons.mp h
    rw [get?_cons]
    rcases List.mem_cons.mp hm with rfl | hm
    · exact if_pos rfl
    · have hin : key ∈ d.map Prod.fst := List.mem_map.mpr ⟨_, hm, rfl⟩
      have hne : key ≠ m.1 := fun hkey => hnew (hkey ▸ hin)
      rw [if_neg hne]
      exact ih hrest hm

theorem get?_update (h : NodupKeys other) :
    (d.update other).get? key = (other.get? key).or (d.get? key) := by
  unfold update
  induction other generalizing d with
  | nil => rfl
  | cons m other ih =>
    obtain ⟨hnew, hrest⟩ := List.nodup_cons.mp h
    rw [List.foldl_cons, ih hrest, get?_cons, get?_set]
    by_cases hkey : key = m.1
    · have hnone : get? other key = none := get?_eq_none_iff.mpr (hkey ▸ hnew)
      rw [if_pos hkey, if_pos hkey, hnone]
      rfl
    · rw [if_neg hkey, if_neg hkey]

/-- Of the entries with the key the last. -/
theorem get?_update_last {β : Type} {f : β → String × α} {xs : List β} :
    (d.update (xs.map f)).get? key =
      ((xs.reverse.find? fun x => (f x).1 = key).map fun x => (f x).2).or (d.get? key) := by
  unfold update
  induction xs generalizing d with
  | nil => rfl
  | cons x xs ih =>
    rw [List.map_cons, List.foldl_cons, ih, List.reverse_cons, List.find?_append, get?_set]
    cases xs.reverse.find? fun x => (f x).1 = key with
    | some y => simp
    | none => by_cases hkey : key = (f x).1 <;> simp [hkey, eq_comm]

theorem get?_filter {p : String → Bool} :
    get? (d.filter fun m => p m.1) key = if p key then d.get? key else none := by
  induction d with
  | nil => simp [get?]
  | cons m d ih =>
    by_cases hp : p m.1 = true
    · rw [List.filter_cons, if_pos hp, get?_cons, get?_cons, ih]
      by_cases hkey : key = m.1
      · simp [hkey, hp]
      · simp [hkey]
    · rw [List.filter_cons, if_neg hp, ih, get?_cons]
      by_cases hkey : key = m.1
      · simp [hkey, hp]
      · simp [hkey]

theorem NodupKeys.filter {p : String × α → Bool} (h : NodupKeys d) : NodupKeys (d.filter p) :=
  h.sublist (List.filter_sublist.map Prod.fst)

theorem keys_set : key ∈ (d.set key' value).map Prod.fst ↔ key = key' ∨ key ∈ d.map Prod.fst := by
  induction d with
  | nil => simp [Dict.set]
  | cons m d ih =>
    simp only [Dict.set]
    split
    · rename_i hkey
      simp [hkey]
    · simp only [List.map_cons, List.mem_cons, ih]
      exact or_left_comm

theorem NodupKeys.set (h : NodupKeys d) : NodupKeys (d.set key value) := by
  induction d with
  | nil => exact List.nodup_cons.mpr ⟨List.not_mem_nil, .nil⟩
  | cons m d ih =>
    obtain ⟨hnew, hrest⟩ := List.nodup_cons.mp h
    simp only [Dict.set]
    split
    · exact h
    · rename_i hkey
      refine List.nodup_cons.mpr ⟨fun hin => ?_, ih hrest⟩
      rcases keys_set.mp hin with heq | hin
      · exact hkey heq
      · exact hnew hin

theorem NodupKeys.update (h : NodupKeys d) : NodupKeys (d.update other) := by
  unfold Dict.update
  induction other generalizing d with
  | nil => exact h
  | cons m other ih => exact ih h.set

/-- A new key comes last. -/
theorem set_of_not_mem (h : key ∉ d.map Prod.fst) : d.set key value = d ++ [(key, value)] := by
  induction d with
  | nil => rfl
  | cons m d ih =>
    simp only [List.map_cons, List.mem_cons, not_or] at h
    rw [Dict.set, if_neg (Ne.symm h.1), ih h.2]
    rfl

/-- Where no key comes twice, nothing is overwritten. -/
theorem update_of_nodup (h : NodupKeys (d ++ other)) : d.update other = d ++ other := by
  unfold Dict.update
  induction other generalizing d with
  | nil => exact (List.append_nil d).symm
  | cons m other ih =>
    have hnew : m.1 ∉ d.map Prod.fst := by
      intro hin
      rw [NodupKeys, List.map_append, List.nodup_append] at h
      exact h.2.2 m.1 hin m.1 List.mem_cons_self rfl
    rw [List.foldl_cons, set_of_not_mem hnew]
    have hassoc : d ++ [m] ++ other = d ++ m :: other := by simp
    have h' : NodupKeys (d ++ [m] ++ other) := hassoc ▸ h
    exact (ih h').trans hassoc

end

end Dict
end Rekuest
