import Rekuest.Interleave.Table

/-!
# Rekuest.Interleave.Keyed

Tables whose rows are found by what they hold.

* `put`: write a row under a key that was handed out, also where its row is gone. `erase`:
  delete the rows that meet a condition. `adjust`: change every row.
* `updateOrCreate`: change the one row that meets a condition, or insert it.
* `UniqueOn`: no two rows hold the same. Upserts by what they hold keep it, and never fail under
  it.
-/

namespace Interleave
namespace Table

variable {α κ ε : Type} {t t' : Table α} {j k : Nat} {a b : α}

/-- `INSERT` or `UPDATE` under a known key. -/
def put (t : Table α) (k : Nat) (a : α) : Table α where
  rows j := if j = k ∧ k < t.next then some a else t.rows j
  next := t.next
  fresh j h := by rw [if_neg (by omega)]; exact t.fresh j h

def erase (t : Table α) (p : Nat → α → Bool) : Table α where
  rows k := (t.rows k).filter fun a => !p k a
  next := t.next
  fresh k h := by rw [t.fresh k h]; rfl

def adjust (t : Table α) (f : α → α) : Table α where
  rows k := (t.rows k).map f
  next := t.next
  fresh k h := by rw [t.fresh k h]; rfl

@[simp] theorem next_put : (t.put k a).next = t.next := rfl

@[simp] theorem next_erase {p : Nat → α → Bool} : (t.erase p).next = t.next := rfl

@[simp] theorem next_adjust {f : α → α} : (t.adjust f).next = t.next := rfl

theorem get_put_self (h : k < t.next) : (t.put k a).get k = some a := if_pos ⟨rfl, h⟩

theorem get_put_of_ne (h : j ≠ k) : (t.put k a).get j = t.get j := if_neg fun hj => h hj.1

@[simp] theorem get_erase {p : Nat → α → Bool} :
    (t.erase p).get k = (t.get k).filter fun a => !p k a := rfl

@[simp] theorem get_adjust {f : α → α} : (t.adjust f).get k = (t.get k).map f := rfl

theorem get_put_cases (h : (t.put k a).get j = some b) : b = a ∨ t.get j = some b := by
  by_cases hj : j = k ∧ k < t.next
  · have hget : (t.put k a).get j = some a := if_pos hj
    rw [hget] at h
    exact .inl (Option.some.inj h).symm
  · have hget : (t.put k a).get j = t.get j := if_neg hj
    exact .inr (hget ▸ h)

theorem isSome_get_put (h : (t.get j).isSome = true) : ((t.put k a).get j).isSome = true := by
  by_cases hj : j = k ∧ k < t.next
  · have hget : (t.put k a).get j = some a := if_pos hj
    rw [hget]
    rfl
  · have hget : (t.put k a).get j = t.get j := if_neg hj
    rw [hget]
    exact h

theorem isSome_get_insert (h : (t.get j).isSome = true) : ((t.insert a).get j).isSome = true := by
  obtain ⟨b, hb⟩ := Option.isSome_iff_exists.mp h
  rw [get_insert_of_get hb]
  rfl

theorem get_erase_eq_some_iff {p : Nat → α → Bool} :
    (t.erase p).get k = some a ↔ t.get k = some a ∧ p k a = false := by
  rw [get_erase, Option.filter_eq_some_iff]
  simp

theorem erase_eq_self {p : Nat → α → Bool} (h : ∀ k a, t.get k = some a → p k a = false) :
    t.erase p = t := by
  ext : 1
  · funext k
    show (t.get k).filter _ = t.get k
    cases hk : t.get k with
    | none => rfl
    | some a => rw [Option.filter_some, if_pos (by rw [h k a hk]; rfl)]
  · rfl

/-- What is inserted and deleted again leaves no trace. -/
theorem get_erase_insert {p : Nat → α → Bool} (hp : p t.next a = true)
    (hold : ∀ j b, t.get j = some b → p j b = false) : ((t.insert a).erase p).get k = t.get k := by
  by_cases hk : k = t.next
  · subst hk
    rw [get_erase, get_insert_next, get_next, Option.filter_some, hp]
    rfl
  · have hget : (t.insert a).get k = t.get k := if_neg hk
    rw [← erase_eq_self hold, get_erase, get_erase, erase_eq_self hold, hget]

/-! ## Upserts -/

/-- `update_or_create`: the row that meets the condition, or a new one; an error where there are
several. -/
def updateOrCreate (t : Table α) (several : ε) (p : α → Bool) (create : α) (update : α → α) :
    Except ε (Table α × Nat) :=
  match t.select fun _ a => p a with
  | [] => .ok (t.insert create, t.next)
  | [row] => .ok (t.modify row.1 update, row.1)
  | _ => .error several

/-- The rows are told apart by `key`. -/
def UniqueOn (key : α → κ) (t : Table α) : Prop :=
  ∀ j k a b, t.get j = some a → t.get k = some b → key a = key b → j = k

variable {several : ε} {p : α → Bool} {create : α} {update : α → α} {key : α → κ}

theorem updateOrCreate_ok (h : t.updateOrCreate several p create update = .ok (t', k)) :
    ((∀ j a, t.get j = some a → p a = false) ∧ k = t.next ∧ t' = t.insert create) ∨
    ∃ a, t.get k = some a ∧ p a = true ∧ t' = t.modify k update := by
  unfold updateOrCreate at h
  split at h
  · rename_i hnone
    cases h
    refine .inl ⟨fun j a hj => ?_, rfl, rfl⟩
    cases hp : p a with
    | false => rfl
    | true =>
      have hmem : (j, a) ∈ t.select fun _ a => p a := mem_select.mpr ⟨hj, hp⟩
      rw [hnone] at hmem
      cases hmem
  · rename_i row hrow
    cases h
    have hmem : (row.1, row.2) ∈ t.select fun _ a => p a := by
      rw [hrow]
      exact List.mem_singleton.mpr rfl
    obtain ⟨hget, hp⟩ := mem_select.mp hmem
    exact .inr ⟨row.2, hget, hp, rfl⟩
  · cases h

/-- A lookup by what tells the rows apart answers with the row that meets the condition. -/
theorem head?_select_iff (hu : UniqueOn key t) (hp : ∀ a b, p a = true → p b = true → key a = key b) :
    (t.select fun _ a => p a).head? = some (k, a) ↔ t.get k = some a ∧ p a = true := by
  constructor
  · intro h
    exact mem_select.mp (List.mem_of_mem_head? h)
  · rintro ⟨hget, hpa⟩
    have hmem : (k, a) ∈ t.select fun _ a => p a := mem_select.mpr ⟨hget, hpa⟩
    cases hs : t.select fun _ a => p a with
    | nil =>
      rw [hs] at hmem
      cases hmem
    | cons first rest =>
      obtain ⟨hget', hpa'⟩ : t.get first.1 = some first.2 ∧ p first.2 = true :=
        mem_select.mp (by rw [hs]; exact List.mem_cons_self)
      have hk : first.1 = k := hu _ _ _ _ hget' hget (hp _ _ hpa' hpa)
      have ha : first.2 = a := by
        rw [hk, hget] at hget'
        exact (Option.some.inj hget').symm
      rw [List.head?_cons, ← hk, ← ha]

/-- After an upsert no other row meets the condition. -/
theorem updateOrCreate_only (h : t.updateOrCreate several p create update = .ok (t', k))
    (hj : t'.get j = some a) (hp : p a = true) : j = k := by
  unfold updateOrCreate at h
  split at h
  · rename_i hnone
    cases h
    rcases get_insert_cases hj with ⟨hnext, _⟩ | ⟨_, hj⟩
    · exact hnext
    · have hmem : (j, a) ∈ t.select fun _ a => p a := mem_select.mpr ⟨hj, hp⟩
      rw [hnone] at hmem
      cases hmem
  · rename_i row hrow
    cases h
    by_contra hne
    rw [get_modify_of_ne hne] at hj
    have hmem : (j, a) ∈ t.select fun _ a => p a := mem_select.mpr ⟨hj, hp⟩
    rw [hrow, List.mem_singleton] at hmem
    exact hne (congrArg Prod.fst hmem)
  · cases h

/-- A row that the update leaves alone is there after an upsert. -/
theorem get_updateOrCreate_of_get (h : t.updateOrCreate several p create update = .ok (t', k))
    (hkeep : t.get j = some a → p a = true → update a = a) (hj : t.get j = some a) :
    t'.get j = some a := by
  rcases updateOrCreate_ok h with ⟨_, _, rfl⟩ | ⟨b, hb, hpb, rfl⟩
  · exact get_insert_of_get hj
  · rw [get_modify, hj]
    split
    · rename_i hjk
      rw [← hjk, hj] at hb
      cases hb
      rw [Option.map_some, hkeep hj hpb]
    · rfl

/-- The row of an upsert meets the condition. -/
theorem updateOrCreate_meets (h : t.updateOrCreate several p create update = .ok (t', k))
    (hcreate : p create = true) (hupdate : ∀ a, p a = true → p (update a) = true) :
    ∃ a, t'.get k = some a ∧ p a = true := by
  rcases updateOrCreate_ok h with ⟨_, rfl, rfl⟩ | ⟨a, ha, hpa, rfl⟩
  · exact ⟨create, get_insert_next, hcreate⟩
  · refine ⟨update a, ?_, hupdate a hpa⟩
    rw [get_modify_self, ha]
    rfl

/-- No upsert meets several rows where the condition tells a row from all others. -/
theorem updateOrCreate_total
    (h : ∀ j k a b, t.get j = some a → t.get k = some b → p a = true → p b = true → j = k) :
    ∃ t' k, t.updateOrCreate several p create update = .ok (t', k) := by
  unfold updateOrCreate
  have hnodup := keys_select_nodup (t := t) (p := fun _ a => p a)
  have hmem : ∀ row ∈ t.select fun _ a => p a, t.get row.1 = some row.2 ∧ p row.2 = true :=
    fun row hrow => mem_select.mp hrow
  cases hs : t.select fun _ a => p a with
  | nil => exact ⟨_, _, rfl⟩
  | cons first rest =>
    cases rest with
    | nil => exact ⟨_, _, rfl⟩
    | cons second rest =>
      rw [hs] at hnodup hmem
      obtain ⟨hg, hp⟩ := hmem first (by simp)
      obtain ⟨hg', hp'⟩ := hmem second (by simp)
      have heq := h _ _ _ _ hg hg' hp hp'
      simp [heq] at hnodup

theorem UniqueOn.empty : UniqueOn key (empty : Table α) := by
  intro j k a b hj
  cases hj

theorem UniqueOn.insert (hu : UniqueOn key t)
    (hnew : ∀ j b, t.get j = some b → key b ≠ key a) : UniqueOn key (t.insert a) := by
  intro j k b c hj hk hkey
  rcases get_insert_cases hj with ⟨hjn, hb⟩ | ⟨_, hj⟩
  · rcases get_insert_cases hk with ⟨hkn, _⟩ | ⟨_, hk⟩
    · rw [hjn, hkn]
    · exact absurd (hb ▸ hkey.symm) (hnew k c hk)
  · rcases get_insert_cases hk with ⟨_, hc⟩ | ⟨_, hk⟩
    · exact absurd (hc ▸ hkey) (hnew j b hj)
    · exact hu j k b c hj hk hkey

theorem UniqueOn.modify (hu : UniqueOn key t)
    (hkeep : ∀ a, t.get k = some a → key (update a) = key a) : UniqueOn key (t.modify k update) := by
  have hback : ∀ j b, (t.modify k update).get j = some b → ∃ a, t.get j = some a ∧ key b = key a := by
    intro j b hj
    rw [get_modify] at hj
    split at hj
    · rename_i hjk
      subst hjk
      obtain ⟨a, ha, rfl⟩ := Option.map_eq_some_iff.mp hj
      exact ⟨a, ha, hkeep a ha⟩
    · exact ⟨b, hj, rfl⟩
  intro i j b c hi hj hkey
  obtain ⟨a, ha, hb⟩ := hback i b hi
  obtain ⟨a', ha', hc⟩ := hback j c hj
  exact hu i j a a' ha ha' (by rw [← hb, ← hc, hkey])

/-- An upsert by the key keeps the key unique. -/
theorem UniqueOn.updateOrCreate (hu : UniqueOn key t) (hcreate : p create = true)
    (hp : ∀ a b, p a = true → key b = key a → p b = true)
    (hkeep : ∀ a, p a = true → key (update a) = key a)
    (h : t.updateOrCreate several p create update = .ok (t', k)) : UniqueOn key t' := by
  rcases updateOrCreate_ok h with ⟨hnone, _, rfl⟩ | ⟨a, ha, hpa, rfl⟩
  · refine hu.insert fun j b hj hkey => ?_
    have hb := hp create b hcreate hkey
    rw [hnone j b hj] at hb
    cases hb
  · refine hu.modify fun b hb => ?_
    rw [ha] at hb
    exact hkeep b (Option.some.inj hb ▸ hpa)

end Table
end Interleave
