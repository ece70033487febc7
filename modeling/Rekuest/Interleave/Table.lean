import Mathlib.Data.Finset.Card
import Mathlib.Data.List.Sort

/-!
# Rekuest.Interleave.Table

A table of rows under serial keys, as a database hands them out.

* `Table`: rows by key, with the next key to hand out. No row has a key not handed out yet, so
  an inserted row never meets an old one.
* `select`: the rows that meet a condition, in key order; `selectBy` the same rows in an order
  that the database picks.
-/

namespace Interleave

@[ext]
structure Table (α : Type) where
  rows : Nat → Option α
  next : Nat
  fresh : ∀ k, next ≤ k → rows k = none

namespace Table

variable {α : Type} {t : Table α} {k j : Nat} {a : α}

/-- No rows. The first key handed out is 1. -/
def empty : Table α := ⟨fun _ => none, 1, fun _ _ => rfl⟩

instance : Inhabited (Table α) := ⟨empty⟩

def get (t : Table α) (k : Nat) : Option α := t.rows k

/-- The new row gets the key `t.next`. -/
def insert (t : Table α) (a : α) : Table α where
  rows k := if k = t.next then some a else t.rows k
  next := t.next + 1
  fresh k h := by rw [if_neg (by omega)]; exact t.fresh k (by omega)

def modify (t : Table α) (k : Nat) (f : α → α) : Table α where
  rows j := if j = k then (t.rows j).map f else t.rows j
  next := t.next
  fresh j h := by simp [t.fresh j h]

def select (t : Table α) (p : Nat → α → Bool) : List (Nat × α) :=
  (List.range t.next).filterMap fun k =>
    (t.rows k).bind fun a => if p k a then some (k, a) else none

/-- The selected rows by increasing `rank` of their keys. -/
def selectBy (t : Table α) (rank : Nat → Nat) (p : Nat → α → Bool) : List (Nat × α) :=
  (t.select p).insertionSort fun x y => rank x.1 ≤ rank y.1

@[simp] theorem get_empty : (empty : Table α).get k = none := rfl

@[simp] theorem get_insert_next : (t.insert a).get t.next = some a := if_pos rfl

@[simp] theorem next_insert : (t.insert a).next = t.next + 1 := rfl

@[simp] theorem next_modify {f : α → α} : (t.modify k f).next = t.next := rfl

theorem lt_next (h : t.get k = some a) : k < t.next := by
  by_contra hk
  rw [get, t.fresh k (by omega)] at h
  cases h

theorem get_next : t.get t.next = none := t.fresh _ (Nat.le_refl _)

theorem get_insert_of_lt (h : k < t.next) : (t.insert a).get k = t.get k :=
  if_neg (by omega)

theorem get_insert_of_get {b : α} (h : t.get k = some b) : (t.insert a).get k = some b := by
  rw [get_insert_of_lt (lt_next h), h]

theorem get_insert_cases {b : α} (h : (t.insert a).get k = some b) :
    (k = t.next ∧ b = a) ∨ (k < t.next ∧ t.get k = some b) := by
  by_cases hk : k = t.next
  · subst hk
    rw [get_insert_next] at h
    exact .inl ⟨rfl, (Option.some.inj h).symm⟩
  · have hg : t.get k = some b := by simpa [get, insert, hk] using h
    exact .inr ⟨lt_next hg, hg⟩

@[simp] theorem get_modify_self {f : α → α} : (t.modify k f).get k = (t.get k).map f :=
  if_pos rfl

theorem get_modify_of_ne {f : α → α} (h : j ≠ k) : (t.modify k f).get j = t.get j := if_neg h

theorem get_modify {f : α → α} :
    (t.modify k f).get j = if j = k then (t.get j).map f else t.get j := rfl

/-- Writing back what the row holds changes nothing. -/
theorem modify_eq_self {f : α → α} (h : ∀ a, t.get k = some a → f a = a) : t.modify k f = t := by
  ext : 1
  · funext j
    show (if j = k then (t.get j).map f else t.get j) = t.get j
    split
    · rename_i hj
      subst hj
      cases hg : t.get j with
      | none => rfl
      | some a => simp [h a hg]
    · rfl
  · rfl

/-- What is written to a known row is a function of that row. -/
theorem modify_const {f : α → α} (h : t.get k = some a) :
    (t.modify k fun _ => f a) = t.modify k f := by
  ext : 1
  · funext j
    show (if j = k then (t.get j).map fun _ => f a else t.get j) =
      if j = k then (t.get j).map f else t.get j
    split
    · rename_i hj
      subst hj
      rw [h]
      rfl
    · rfl
  · rfl

theorem mem_select {p : Nat → α → Bool} :
    (k, a) ∈ t.select p ↔ t.get k = some a ∧ p k a = true := by
  constructor
  · intro h
    obtain ⟨j, _, hj⟩ := List.mem_filterMap.mp h
    obtain ⟨b, hb, hif⟩ := Option.bind_eq_some_iff.mp hj
    split at hif
    · rename_i hp
      cases hif
      exact ⟨hb, hp⟩
    · cases hif
  · rintro ⟨hg, hp⟩
    refine List.mem_filterMap.mpr ⟨k, List.mem_range.mpr (lt_next hg), ?_⟩
    have hr : t.rows k = some a := hg
    simp [hr, hp]

/-- A new row comes last. -/
theorem select_insert {p : Nat → α → Bool} :
    (t.insert a).select p = t.select p ++ if p t.next a then [(t.next, a)] else [] := by
  simp only [select, next_insert, List.range_succ, List.filterMap_append]
  congr 1
  · refine List.filterMap_congr fun j hj => ?_
    have hlt : j < t.next := List.mem_range.mp hj
    simp [insert, Nat.ne_of_lt hlt]
  · by_cases hp : p t.next a <;> simp [insert, hp]

theorem mem_selectBy {rank : Nat → Nat} {p : Nat → α → Bool} :
    (k, a) ∈ t.selectBy rank p ↔ t.get k = some a ∧ p k a = true := by
  rw [selectBy, (List.perm_insertionSort _ _).mem_iff, mem_select]

theorem keys_select {p : Nat → α → Bool} :
    (t.select p).map Prod.fst = (List.range t.next).filter fun k => (t.rows k).any (p k) := by
  rw [select, List.map_filterMap]
  induction List.range t.next with
  | nil => rfl
  | cons k ks ih =>
    rw [List.filterMap_cons, List.filter_cons, ih]
    cases hr : t.rows k with
    | none => simp
    | some a => by_cases hp : p k a = true <;> simp [hp]

theorem keys_select_nodup {p : Nat → α → Bool} : ((t.select p).map Prod.fst).Nodup := by
  rw [keys_select]
  exact List.nodup_range.filter _

/-- The first of the selected rows has the least key. -/
theorem head_select_le {p : Nat → α → Bool} {b : α} (h : (t.select p).head? = some (k, a))
    (hj : t.get j = some b) (hp : p j b = true) : k ≤ j := by
  have hsorted : ((t.select p).map Prod.fst).Pairwise (· < ·) := by
    rw [keys_select]
    exact List.pairwise_lt_range.filter _
  have hmem : j ∈ (t.select p).map Prod.fst :=
    List.mem_map_of_mem (f := Prod.fst) (mem_select.mpr ⟨hj, hp⟩)
  cases hl : t.select p with
  | nil =>
    rw [hl] at h
    cases h
  | cons x xs =>
    rw [hl] at h hsorted hmem
    cases h
    rcases List.mem_cons.mp hmem with rfl | hmem
    · exact Nat.le_refl _
    · exact Nat.le_of_lt ((List.pairwise_cons.mp hsorted).1 j hmem)

theorem keys_selectBy_nodup {rank : Nat → Nat} {p : Nat → α → Bool} :
    ((t.selectBy rank p).map Prod.fst).Nodup :=
  ((List.perm_insertionSort _ _).map _).nodup_iff.mpr keys_select_nodup

/-- Some order has these keys first. -/
theorem exists_rank_first (p : Nat → α → Bool) (ks : Finset Nat)
    (hks : ∀ k ∈ ks, k ∈ (t.select p).map Prod.fst) :
    ∃ rank, ∀ k, k ∈ ((t.selectBy rank p).map Prod.fst).take ks.card ↔ k ∈ ks := by
  let rank : Nat → Nat := fun k => if k ∈ ks then 0 else 1
  refine ⟨rank, ?_⟩
  have hsorted : ((t.selectBy rank p).map Prod.fst).Pairwise fun j k => rank j ≤ rank k := by
    rw [List.pairwise_map]
    have htotal : Std.Total fun x y : Nat × α => rank x.1 ≤ rank y.1 :=
      ⟨fun _ _ => Nat.le_total _ _⟩
    have htrans : IsTrans (Nat × α) fun x y => rank x.1 ≤ rank y.1 :=
      ⟨fun _ _ _ => Nat.le_trans⟩
    exact List.pairwise_insertionSort _ _
  have hnodup : ((t.selectBy rank p).map Prod.fst).Nodup := keys_selectBy_nodup
  have hmem : ∀ k ∈ ks, k ∈ (t.selectBy rank p).map Prod.fst := fun k hk =>
    ((List.perm_insertionSort _ _).map _).mem_iff.mpr (hks k hk)
  generalize (t.selectBy rank p).map Prod.fst = l at hsorted hnodup hmem
  have hsplit := List.take_append_drop ks.card l
  have hlength : (l.take ks.card).length = ks.card := by
    rw [List.length_take, Nat.min_eq_left]
    calc ks.card ≤ l.toFinset.card :=
          Finset.card_le_card fun k hk => List.mem_toFinset.mpr (hmem k hk)
      _ ≤ l.length := List.toFinset_card_le l
  -- what is after another key is none of these, and there are not enough of them before it
  have hfirst : ∀ k ∈ l.take ks.card, k ∈ ks := by
    intro k hk
    by_contra hout
    have hbefore : ks ⊆ (l.take ks.card).toFinset.erase k := by
      intro j hj
      have hne : j ≠ k := fun h => hout (h ▸ hj)
      rw [Finset.mem_erase, List.mem_toFinset]
      refine ⟨hne, ?_⟩
      rcases List.mem_append.mp (hsplit.symm ▸ hmem j hj) with h | h
      · exact h
      · rw [← hsplit] at hsorted
        have hle := (List.pairwise_append.mp hsorted).2.2 k hk j h
        simp [rank, hout, hj] at hle
    have hcard := Finset.card_le_card hbefore
    rw [Finset.card_erase_of_mem (List.mem_toFinset.mpr hk)] at hcard
    have htake := List.toFinset_card_le (l.take ks.card)
    have hpos := List.length_pos_of_mem hk
    omega
  intro k
  refine ⟨hfirst k, fun hk => ?_⟩
  have hall : (l.take ks.card).toFinset = ks := by
    refine Finset.eq_of_subset_of_card_le (fun j hj => hfirst j (List.mem_toFinset.mp hj)) ?_
    rw [List.toFinset_card_of_nodup (hnodup.sublist (List.take_sublist _ _)), hlength]
  rw [← hall] at hk
  exact List.mem_toFinset.mp hk

/-! ## Several rows -/

/-- The rows get the next keys, in their order. -/
def insertAll (t : Table α) (as : List α) : Table α := as.foldl insert t

variable {as bs : List α}

@[simp] theorem insertAll_nil : t.insertAll [] = t := rfl

theorem insertAll_cons : t.insertAll (a :: as) = (t.insert a).insertAll as := rfl

theorem insertAll_append : t.insertAll (as ++ bs) = (t.insertAll as).insertAll bs :=
  List.foldl_append

@[simp] theorem next_insertAll : (t.insertAll as).next = t.next + as.length := by
  induction as generalizing t with
  | nil => rfl
  | cons a as ih =>
    rw [insertAll_cons, ih, next_insert, List.length_cons]
    omega

theorem get_insertAll_of_lt (h : k < t.next) : (t.insertAll as).get k = t.get k := by
  induction as generalizing t with
  | nil => rfl
  | cons a as ih =>
    rw [insertAll_cons, ih (Nat.lt_succ_of_lt h), get_insert_of_lt h]

theorem get_insertAll_add (i : Nat) : (t.insertAll as).get (t.next + i) = as[i]? := by
  induction as generalizing t i with
  | nil => exact t.fresh _ (Nat.le_add_right _ _)
  | cons a as ih =>
    rw [insertAll_cons]
    cases i with
    | zero =>
      rw [get_insertAll_of_lt (Nat.lt_succ_self _)]
      exact get_insert_next
    | succ i =>
      have hnext : t.next + (i + 1) = (t.insert a).next + i := by
        rw [next_insert]
        omega
      rw [hnext, ih, List.getElem?_cons_succ]

/-- A row that was not there is one of those inserted. -/
theorem get_insertAll_new (h : t.next ≤ k) (hk : (t.insertAll as).get k = some a) :
    as[k - t.next]? = some a := by
  rw [← get_insertAll_add, Nat.add_sub_cancel' h]
  exact hk

end Table
end Interleave
