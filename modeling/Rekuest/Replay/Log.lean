import Mathlib.Data.List.Induction
import Mathlib.Data.List.Sort

/-!
# Rekuest.Replay.Log

Replaying a log: entries are applied to a value one after the other, and an entry that cannot
be applied is skipped.

* `replay`: what a log leaves of a value.
* `Recorder`: a way to apply entries that forgets nothing.
* `replay_ext_iff`: two starts and two logs replay alike, whatever applying an entry means, only
  where they are the same start and the same log.
* `Exchanged`: the entries of a log in another order, in which they replay alike.
* `orderBy`, `orderByDesc`: rows by a key, rows of the same key as they stood. They commute with
  filters.
-/

namespace Replay

variable {α β : Type}

/-- One entry: skipped where it cannot be applied. -/
def step (apply : α → β → Option α) (a : α) (b : β) : α := (apply a b).getD a

def replay (apply : α → β → Option α) (a : α) (log : List β) : α := log.foldl (step apply) a

@[simp] theorem replay_nil {apply : α → β → Option α} {a : α} : replay apply a [] = a := rfl

@[simp] theorem replay_cons {apply : α → β → Option α} {a : α} {b : β} {log : List β} :
    replay apply a (b :: log) = replay apply (step apply a b) log := rfl

theorem replay_append {apply : α → β → Option α} {a : α} {log rest : List β} :
    replay apply a (log ++ rest) = replay apply (replay apply a log) rest := List.foldl_append

/-- No entry can be applied. -/
theorem replay_none {a : α} {log : List β} : replay (fun _ _ => none) a log = a := by
  induction log with
  | nil => rfl
  | cons b log ih => exact ih

/-- The entries of a log in another order: neighbours that commute change places. -/
inductive Exchanged (apply : α → β → Option α) : List β → List β → Prop
  | refl (log : List β) : Exchanged apply log log
  | swap {b b' : β} (log : List β)
      (hcomm : ∀ a, step apply (step apply a b) b' = step apply (step apply a b') b) :
      Exchanged apply (b :: b' :: log) (b' :: b :: log)
  | cons {log rest : List β} (b : β) (h : Exchanged apply log rest) :
      Exchanged apply (b :: log) (b :: rest)
  | trans {log mid rest : List β} (h : Exchanged apply log mid) (h' : Exchanged apply mid rest) :
      Exchanged apply log rest

theorem Exchanged.replay_eq {apply : α → β → Option α} {log rest : List β}
    (h : Exchanged apply log rest) (a : α) : replay apply a log = replay apply a rest := by
  induction h generalizing a with
  | refl => rfl
  | swap log hcomm =>
    simp only [replay_cons]
    rw [hcomm a]
  | cons b _ ih => exact ih _
  | trans _ _ ih ih' => exact (ih a).trans (ih' a)

/-- Entries are kept in the value, and the value grows with each. -/
structure Recorder (α β : Type) where
  record : α → β → α
  size : α → Nat
  record_inj : ∀ {a a' b b'}, record a b = record a' b' → a = a' ∧ b = b'
  size_lt : ∀ {a b}, size a < size (record a b)

namespace Recorder

variable (R : Recorder α β) {a : α} {b : β} {log rest : List β}

def apply (a : α) (b : β) : Option α := some (R.record a b)

theorem replay_concat :
    replay R.apply a (log ++ [b]) = R.record (replay R.apply a log) b := replay_append

theorem size_le_replay : R.size a ≤ R.size (replay R.apply a log) := by
  induction log generalizing a with
  | nil => exact Nat.le_refl _
  | cons b log ih => exact Nat.le_trans (Nat.le_of_lt R.size_lt) ih

theorem ne_replay_concat : a ≠ replay R.apply a (log ++ [b]) := by
  intro h
  have hlt : R.size a < R.size (replay R.apply a (log ++ [b])) := by
    rw [replay_concat]
    exact Nat.lt_of_le_of_lt (size_le_replay R) R.size_lt
  rw [← h] at hlt
  exact Nat.lt_irrefl _ hlt

/-- The recorded value tells the log that it was recorded from. -/
theorem replay_injective (h : replay R.apply a log = replay R.apply a rest) : log = rest := by
  induction log using List.reverseRecOn generalizing rest with
  | nil =>
    cases rest using List.reverseRecOn with
    | nil => rfl
    | append_singleton rest b => exact absurd h (ne_replay_concat R)
  | append_singleton log b ih =>
    cases rest using List.reverseRecOn with
    | nil => exact absurd h.symm (ne_replay_concat R)
    | append_singleton rest b' =>
      rw [replay_concat, replay_concat] at h
      obtain ⟨hlog, hb⟩ := R.record_inj h
      rw [ih hlog, hb]

end Recorder

/-- What every way to apply entries has in common is the start and the log. -/
theorem replay_ext_iff (R : Recorder α β) {a a' : α} {log rest : List β} :
    (∀ apply, replay apply a log = replay apply a' rest) ↔ a = a' ∧ log = rest := by
  constructor
  · intro h
    have ha : a = a' := by simpa only [replay_none] using h fun _ _ => none
    subst ha
    exact ⟨rfl, R.replay_injective (h R.apply)⟩
  · intro h apply
    rw [h.1, h.2]

/-- The rows by increasing `key`. -/
def orderBy (key : α → Int) (rows : List α) : List α :=
  rows.insertionSort fun a b => key a ≤ key b

/-- The rows by decreasing `key`. -/
def orderByDesc (key : α → Int) (rows : List α) : List α :=
  rows.insertionSort fun a b => key b ≤ key a

variable {key : α → Int} {rows : List α} {a : α}

theorem mem_orderBy : a ∈ orderBy key rows ↔ a ∈ rows :=
  (List.perm_insertionSort _ _).mem_iff

theorem mem_orderByDesc : a ∈ orderByDesc key rows ↔ a ∈ rows :=
  (List.perm_insertionSort _ _).mem_iff

theorem mem_of_head?_orderByDesc (h : (orderByDesc key rows).head? = some a) : a ∈ rows :=
  mem_orderByDesc.mp (List.mem_of_mem_head? h)

theorem isSome_head?_orderByDesc : (orderByDesc key rows).head?.isSome = !rows.isEmpty := by
  have hlen : (orderByDesc key rows).length = rows.length := List.length_insertionSort _ _
  cases rows with
  | nil => rfl
  | cons b rows =>
    cases hd : orderByDesc key (b :: rows) with
    | nil => rw [hd] at hlen; cases hlen
    | cons c rest => rfl

theorem head?_orderByDesc_eq_none (h : (orderByDesc key rows).head? = none) : rows = [] := by
  have hsome : (orderByDesc key rows).head?.isSome = !rows.isEmpty := isSome_head?_orderByDesc
  simpa [h] using hsome

/-- No row has a higher key than the first. -/
theorem key_le_of_head? {b : α} (h : (orderByDesc key rows).head? = some a) (hb : b ∈ rows) :
    key b ≤ key a := by
  have hsorted : (orderByDesc key rows).Pairwise fun a b => key b ≤ key a :=
    List.pairwise_insertionSort _ _
  have hmem : b ∈ orderByDesc key rows := mem_orderByDesc.mpr hb
  cases hrows : orderByDesc key rows with
  | nil =>
    rw [hrows] at hmem
    cases hmem
  | cons c rest =>
    rw [hrows] at h hsorted hmem
    cases h
    rcases List.mem_cons.mp hmem with rfl | hmem
    · exact Int.le_refl _
    · exact (List.pairwise_cons.mp hsorted).1 b hmem

/-- A row in front goes first, unless the first row so far has a higher key. -/
theorem head?_orderByDesc_cons {b : α} (h : (orderByDesc key rows).head? = some b) :
    (orderByDesc key (a :: rows)).head? = some (if key b ≤ key a then a else b) := by
  show (List.orderedInsert _ a (orderByDesc key rows)).head? = _
  cases hrows : orderByDesc key rows with
  | nil =>
    rw [hrows] at h
    cases h
  | cons c sorted =>
    rw [hrows] at h
    cases h
    by_cases hle : key b ≤ key a <;> simp [List.orderedInsert, hle]

/-- The first row is the first of those with the highest key. -/
theorem head?_orderByDesc_iff :
    (orderByDesc key rows).head? = some a ↔
      ∃ before after, rows = before ++ a :: after ∧ (∀ b ∈ before, key b < key a) ∧
        ∀ b ∈ after, key b ≤ key a := by
  constructor
  · intro h
    induction rows with
    | nil => cases h
    | cons c rows ih =>
      cases hrows : (orderByDesc key rows).head? with
      | none =>
        obtain rfl := head?_orderByDesc_eq_none hrows
        cases h
        exact ⟨[], [], rfl, fun b hb => (by cases hb), fun b hb => (by cases hb)⟩
      | some b =>
        rw [head?_orderByDesc_cons hrows] at h
        split at h
        · rename_i hle
          cases h
          refine ⟨[], rows, rfl, fun b hb => (by cases hb), fun d hd => ?_⟩
          exact Int.le_trans (key_le_of_head? hrows hd) hle
        · rename_i hlt
          cases h
          obtain ⟨before, after, rfl, hbefore, hafter⟩ := ih hrows
          refine ⟨c :: before, after, rfl, ?_, hafter⟩
          intro d hd
          rcases List.mem_cons.mp hd with rfl | hd
          · exact Int.not_le.mp hlt
          · exact hbefore d hd
  · intro h
    obtain ⟨before, after, rfl, hbefore, hafter⟩ := h
    induction before with
    | nil =>
      cases hrest : (orderByDesc key after).head? with
      | none =>
        obtain rfl := head?_orderByDesc_eq_none hrest
        rfl
      | some b =>
        rw [List.nil_append, head?_orderByDesc_cons hrest,
          if_pos (hafter b (mem_of_head?_orderByDesc hrest))]
    | cons c before ih =>
      rw [List.cons_append,
        head?_orderByDesc_cons (ih fun b hb => hbefore b (List.mem_cons_of_mem _ hb)),
        if_neg (Int.not_le.mpr (hbefore c List.mem_cons_self))]

/-- What comes first comes first also among some of the rows, if it is one of them. -/
theorem head?_orderByDesc_filter {p : α → Bool} (h : (orderByDesc key rows).head? = some a)
    (ha : p a = true) : (orderByDesc key (rows.filter p)).head? = some a := by
  obtain ⟨before, after, rfl, hbefore, hafter⟩ := head?_orderByDesc_iff.mp h
  refine head?_orderByDesc_iff.mpr ⟨before.filter p, after.filter p, ?_, ?_, ?_⟩
  · rw [List.filter_append, List.filter_cons_of_pos ha]
  · exact fun b hb => hbefore b (List.mem_of_mem_filter hb)
  · exact fun b hb => hafter b (List.mem_of_mem_filter hb)

/-! ## Some of the rows -/

/-- A row goes among some sorted rows where it goes among all. -/
theorem filter_orderedInsert {r : α → α → Prop} [DecidableRel r] {p : α → Bool}
    (htrans : ∀ a b c, r a b → r b c → r a c) (hsorted : rows.Pairwise r) (ha : p a = true) :
    (rows.orderedInsert r a).filter p = (rows.filter p).orderedInsert r a := by
  induction rows with
  | nil => simp [ha]
  | cons b rows ih =>
    obtain ⟨hb, hsorted⟩ := List.pairwise_cons.mp hsorted
    by_cases hle : r a b
    · rw [List.orderedInsert_cons, if_pos hle, List.filter_cons_of_pos ha]
      by_cases hpb : p b = true
      · rw [List.filter_cons_of_pos hpb, List.orderedInsert_cons, if_pos hle]
      · rw [List.filter_cons_of_neg hpb]
        cases hrows : rows.filter p with
        | nil => rfl
        | cons c rest =>
          have hc : c ∈ rows := List.mem_of_mem_filter (hrows ▸ List.mem_cons_self)
          rw [List.orderedInsert_cons, if_pos (htrans a b c hle (hb c hc))]
    · rw [List.orderedInsert_cons, if_neg hle]
      by_cases hpb : p b = true
      · rw [List.filter_cons_of_pos hpb, List.filter_cons_of_pos hpb, List.orderedInsert_cons,
          if_neg hle, ih hsorted]
      · rw [List.filter_cons_of_neg hpb, List.filter_cons_of_neg hpb, ih hsorted]

theorem filter_orderedInsert_of_neg {r : α → α → Prop} [DecidableRel r] {p : α → Bool}
    (ha : ¬ p a = true) : (rows.orderedInsert r a).filter p = rows.filter p := by
  induction rows with
  | nil => exact List.filter_cons_of_neg ha
  | cons b rows ih =>
    rw [List.orderedInsert_cons]
    split
    · exact List.filter_cons_of_neg ha
    · rw [List.filter_cons, List.filter_cons, ih]

/-- Some of the rows in order are some of the ordered rows. -/
theorem orderByDesc_filter {p : α → Bool} :
    orderByDesc key (rows.filter p) = (orderByDesc key rows).filter p := by
  induction rows with
  | nil => rfl
  | cons a rows ih =>
    have hsorted : (orderByDesc key rows).Pairwise fun a b => key b ≤ key a :=
      List.pairwise_insertionSort _ _
    have hcons : orderByDesc key (a :: rows) =
        (orderByDesc key rows).orderedInsert (fun a b => key b ≤ key a) a := rfl
    have htrans : ∀ a b c, key b ≤ key a → key c ≤ key b → key c ≤ key a :=
      fun a b c hab hbc => Int.le_trans hbc hab
    by_cases ha : p a = true
    · rw [List.filter_cons_of_pos ha, hcons, filter_orderedInsert htrans hsorted ha, ← ih]
      rfl
    · rw [List.filter_cons_of_neg ha, ih, hcons, filter_orderedInsert_of_neg ha]

/-- The first rows are the first of some rows, if they are all among these. -/
theorem take_filter_iff {p : α → Bool} {n : Nat} :
    (rows.filter p).take n = rows.take n ↔ ∀ a ∈ rows.take n, p a = true := by
  constructor
  · intro h a ha
    rw [← h] at ha
    exact List.of_mem_filter (List.mem_of_mem_take ha)
  · intro h
    induction rows generalizing n with
    | nil => rfl
    | cons a rows ih =>
      cases n with
      | zero => rfl
      | succ n =>
        rw [List.take_succ_cons, List.forall_mem_cons] at h
        rw [List.filter_cons_of_pos h.1, List.take_succ_cons, List.take_succ_cons, ih h.2]

end Replay
