import Rekuest.Interleave.Keyed

/-!
# Rekuest.Interleave.Upserts

Loops of upserts into one table, whose rows are told apart by a key.

* `Upsert`: the place of a row, the row that is created there, and what is written to one.
* `Upserts`: upserts one after the other, each with the serial key it answers.
* `Overwrites`: upserts that write the same columns, so that of two the later one counts.
* `Upserts.again`: a loop of such upserts that ran once changes nothing when it runs again.
-/

namespace Interleave
namespace Table

structure Upsert (κ α : Type) where
  place : κ
  create : α
  update : α → α

variable {α κ ε : Type}

def upsert [DecidableEq κ] (key : α → κ) (several : ε) (t : Table α) (u : Upsert κ α) :
    Except ε (Table α × Nat) :=
  t.updateOrCreate several (fun a => key a = u.place) u.create u.update

inductive Upserts [DecidableEq κ] (key : α → κ) (several : ε) :
    Table α → List (Upsert κ α × Nat) → Table α → Prop where
  | nil {t : Table α} : Upserts key several t [] t
  | cons {t t' t'' : Table α} {u : Upsert κ α} {k : Nat} {us : List (Upsert κ α × Nat)}
      (h : upsert key several t u = .ok (t', k)) (hrest : Upserts key several t' us t'') :
      Upserts key several t ((u, k) :: us) t''

/-- What the upserts make of the row under a serial key. -/
def overwritten (us : List (Upsert κ α × Nat)) (k : Nat) (a : α) : α :=
  us.foldl (fun a w => if w.2 = k then w.1.update a else a) a

/-- The rows of the upserts are there, and no others are at their places. -/
def Present (key : α → κ) (us : List (Upsert κ α × Nat)) (t : Table α) : Prop :=
  ∀ w ∈ us, (∃ a, t.get w.2 = some a ∧ key a = w.1.place) ∧
    ∀ j b, t.get j = some b → key b = w.1.place → j = w.2

/-- The upserts keep the places, and write the same columns. -/
structure Overwrites (key : α → κ) (us : List (Upsert κ α × Nat)) : Prop where
  create : ∀ w ∈ us, key w.1.create = w.1.place
  update : ∀ w ∈ us, ∀ a, key (w.1.update a) = key a
  created : ∀ w ∈ us, w.1.update w.1.create = w.1.create
  last : ∀ w ∈ us, ∀ v ∈ us, ∀ a, w.1.update (v.1.update a) = w.1.update a

variable {key : α → κ} {several : ε} {t t' t'' : Table α} {u : Upsert κ α}
  {us vs : List (Upsert κ α × Nat)} {k j : Nat} {a b : α}

theorem Overwrites.mono (h : Overwrites key vs) (hsub : us ⊆ vs) : Overwrites key us where
  create w hw := h.create w (hsub hw)
  update w hw := h.update w (hsub hw)
  created w hw := h.created w (hsub hw)
  last w hw v hv := h.last w (hsub hw) v (hsub hv)

theorem overwritten_of_ne (hus : ∀ w ∈ us, w.2 ≠ k) : overwritten us k a = a := by
  induction us with
  | nil => rfl
  | cons w us ih =>
    rw [overwritten, List.foldl_cons, if_neg (hus w List.mem_cons_self)]
    exact ih fun v hv => hus v (List.mem_cons_of_mem _ hv)

/-- An update that a later one follows does not show. -/
theorem overwritten_update (hlast : ∀ w ∈ us, ∀ a, w.1.update (u.update a) = w.1.update a)
    (hus : ∃ w ∈ us, w.2 = k) : overwritten us k (u.update a) = overwritten us k a := by
  induction us with
  | nil => simp at hus
  | cons w us ih =>
    rw [overwritten, overwritten, List.foldl_cons, List.foldl_cons]
    by_cases hw : w.2 = k
    · rw [if_pos hw, if_pos hw, hlast w List.mem_cons_self]
    · rw [if_neg hw, if_neg hw]
      refine ih (fun v hv => hlast v (List.mem_cons_of_mem _ hv)) ?_
      obtain ⟨v, hv, hvk⟩ := hus
      rcases List.mem_cons.mp hv with rfl | hv
      · exact absurd hvk hw
      · exact ⟨v, hv, hvk⟩

/-- A family of upserts whose members all write the same columns. -/
theorem Overwrites.of_family {ι : Type} {f : ι → Upsert κ α}
    (hcreate : ∀ i, key (f i).create = (f i).place) (hupdate : ∀ i a, key ((f i).update a) = key a)
    (hcreated : ∀ i, (f i).update (f i).create = (f i).create)
    (hlast : ∀ i j a, (f i).update ((f j).update a) = (f i).update a)
    (hus : ∀ w ∈ us, ∃ i, w.1 = f i) : Overwrites key us where
  create w hw := by
    obtain ⟨i, hi⟩ := hus w hw
    rw [hi, hcreate]
  update w hw a := by
    obtain ⟨i, hi⟩ := hus w hw
    rw [hi, hupdate]
  created w hw := by
    obtain ⟨i, hi⟩ := hus w hw
    rw [hi, hcreated]
  last w hw v hv a := by
    obtain ⟨i, hi⟩ := hus w hw
    obtain ⟨j, hj⟩ := hus v hv
    rw [hi, hj, hlast]

variable [DecidableEq κ]

/-! ## One upsert -/

theorem updateOrCreate_eq_upsert {p : α → Bool} (hp : ∀ a, p a = decide (key a = u.place)) :
    t.updateOrCreate several p u.create u.update = upsert key several t u := by
  rw [upsert, funext hp]

theorem upsert_cases (h : upsert key several t u = .ok (t', k)) :
    ((∀ j b, t.get j = some b → key b ≠ u.place) ∧ k = t.next ∧ t' = t.insert u.create) ∨
    ∃ a, t.get k = some a ∧ key a = u.place ∧ t' = t.modify k u.update := by
  rcases updateOrCreate_ok h with ⟨hnone, hk, ht⟩ | ⟨a, ha, hp, ht⟩
  · refine .inl ⟨fun j b hj hkey => ?_, hk, ht⟩
    have hno := hnone j b hj
    simp [hkey] at hno
  · exact .inr ⟨a, ha, by simpa using hp, ht⟩

theorem upsert_only (h : upsert key several t u = .ok (t', k)) (hj : t'.get j = some b)
    (hkey : key b = u.place) : j = k :=
  updateOrCreate_only h hj (by simp [hkey])

/-- The row that is there is written. -/
theorem upsert_of_present (ha : t.get k = some a) (hkey : key a = u.place)
    (honly : ∀ j b, t.get j = some b → key b = u.place → j = k) :
    upsert key several t u = .ok (t.modify k u.update, k) := by
  obtain ⟨t', j, h⟩ : ∃ t' j, upsert key several t u = .ok (t', j) := by
    refine updateOrCreate_total fun i j b c hi hj hb hc => ?_
    rw [honly i b hi (by simpa using hb), honly j c hj (by simpa using hc)]
  rcases upsert_cases h with ⟨hnone, _, _⟩ | ⟨b, hb, hbkey, ht⟩
  · exact absurd hkey (hnone k a ha)
  · rw [h, ht, honly j b hb hbkey]

/-! ## Loops -/

theorem upserts_nil_iff : Upserts key several t [] t' ↔ t = t' := by
  constructor
  · intro h
    cases h
    rfl
  · rintro rfl
    exact .nil

theorem upserts_cons_iff : Upserts key several t ((u, k) :: us) t'' ↔
    ∃ t', upsert key several t u = .ok (t', k) ∧ Upserts key several t' us t'' := by
  constructor
  · intro h
    cases h with
    | cons hu hrest => exact ⟨_, hu, hrest⟩
  · rintro ⟨t', hu, hrest⟩
    exact .cons hu hrest

theorem Upserts.append (h : Upserts key several t us t') (h' : Upserts key several t' vs t'') :
    Upserts key several t (us ++ vs) t'' := by
  induction h with
  | nil => exact h'
  | cons hu _ ih => exact .cons hu (ih h')

theorem Upserts.split (h : Upserts key several t (us ++ vs) t'') :
    ∃ t', Upserts key several t us t' ∧ Upserts key several t' vs t'' := by
  induction us generalizing t with
  | nil => exact ⟨t, .nil, h⟩
  | cons w us ih =>
    cases h with
    | cons hu hrest =>
      obtain ⟨t₁, h₁, h₂⟩ := ih hrest
      exact ⟨t₁, .cons hu h₁, h₂⟩

/-- A row stays, and what no update touches of it. -/
theorem Upserts.kept {γ : Type} {column : α → γ} (h : Upserts key several t us t')
    (hcolumn : ∀ w ∈ us, ∀ a, column (w.1.update a) = column a) (ha : t.get k = some a) :
    ∃ b, t'.get k = some b ∧ column b = column a := by
  induction h generalizing a with
  | nil => exact ⟨a, ha, rfl⟩
  | @cons t t₁ t'' u j us hu hrest ih =>
    have hmid : ∃ c, t₁.get k = some c ∧ column c = column a := by
      rcases upsert_cases hu with ⟨_, _, rfl⟩ | ⟨_, _, _, rfl⟩
      · exact ⟨a, get_insert_of_get ha, rfl⟩
      · rw [get_modify, ha]
        split
        · exact ⟨u.update a, rfl, hcolumn _ List.mem_cons_self a⟩
        · exact ⟨a, rfl, rfl⟩
    obtain ⟨c, hc, hsame⟩ := hmid
    obtain ⟨b, hb, hlast⟩ := ih (fun w hw => hcolumn w (List.mem_cons_of_mem _ hw)) hc
    exact ⟨b, hb, hlast.trans hsame⟩

/-- Columns that no update touches were unique, if they are in the end. -/
theorem Upserts.unique {γ : Type} {column : α → γ} (h : Upserts key several t us t')
    (hcolumn : ∀ w ∈ us, ∀ a, column (w.1.update a) = column a) (hu : UniqueOn column t') :
    UniqueOn column t := by
  intro i j a b hi hj hab
  obtain ⟨a', ha', hasame⟩ := h.kept hcolumn hi
  obtain ⟨b', hb', hbsame⟩ := h.kept hcolumn hj
  exact hu i j a' b' ha' hb' (by rw [hasame, hbsame, hab])

/-- A row that no upsert answers is as it was. -/
theorem Upserts.untouched (h : Upserts key several t us t') (hus : ∀ w ∈ us, w.2 ≠ k) :
    t'.get k = t.get k := by
  induction h with
  | nil => rfl
  | @cons t t₁ t'' u j us hu hrest ih =>
    rw [ih fun w hw => hus w (List.mem_cons_of_mem _ hw)]
    have hne : k ≠ j := fun hkj => hus (u, j) List.mem_cons_self hkj.symm
    rcases upsert_cases hu with ⟨_, hj, rfl⟩ | ⟨_, _, _, rfl⟩
    · rw [hj] at hne
      simp [get, insert, hne]
    · exact get_modify_of_ne hne

/-- A row at a place that nothing is written to is one that was there. -/
theorem Upserts.elsewhere (h : Upserts key several t us t') (hus : Overwrites key us)
    (ha : ∀ w ∈ us, w.1.place ≠ key a) : t'.get k = some a ↔ t.get k = some a := by
  induction h with
  | nil => exact Iff.rfl
  | @cons t t₁ t'' u j us hu hrest ih =>
    rw [ih (hus.mono (List.subset_cons_self _ _)) fun w hw => ha w (List.mem_cons_of_mem _ hw)]
    have hne := ha (u, j) List.mem_cons_self
    rcases upsert_cases hu with ⟨_, _, rfl⟩ | ⟨c, hc, hckey, rfl⟩
    · constructor
      · intro hk
        rcases get_insert_cases hk with ⟨_, rfl⟩ | ⟨_, hk⟩
        · exact absurd (hus.create (u, j) List.mem_cons_self).symm hne
        · exact hk
      · exact get_insert_of_get
    · rw [get_modify]
      split
      · rename_i hkj
        rw [hkj, hc]
        constructor
        · intro hk
          have hkey := hus.update (u, j) List.mem_cons_self c
          rw [Option.some.inj hk] at hkey
          exact absurd (hckey.symm.trans hkey.symm) hne
        · intro hk
          rw [Option.some.inj hk] at hckey
          exact absurd hckey.symm hne
      · exact Iff.rfl

/-- No place gets a second row. -/
theorem Upserts.sole (h : Upserts key several t us t') (hus : Overwrites key us) {p : κ}
    (hthere : ∃ a, t.get k = some a ∧ key a = p)
    (honly : ∀ j b, t.get j = some b → key b = p → j = k) (hj : t'.get j = some b)
    (hkey : key b = p) : j = k := by
  induction h with
  | nil => exact honly j b hj hkey
  | @cons t t₁ t'' u i us hu hrest ih =>
    have hrest' := hus.mono (List.subset_cons_self _ _)
    obtain ⟨a, ha, hap⟩ := hthere
    refine ih hrest' ?_ (fun l c hl hc => ?_) hj
    · obtain ⟨c, hc, hsame⟩ := Upserts.kept (.cons hu .nil)
        (fun w hw => hus.update w (by simp_all)) ha
      exact ⟨c, hc, hsame.trans hap⟩
    · rcases upsert_cases hu with ⟨hnone, _, rfl⟩ | ⟨d, hd, _, rfl⟩
      · rcases get_insert_cases hl with ⟨_, rfl⟩ | ⟨_, hl⟩
        · rw [hus.create _ List.mem_cons_self] at hc
          exact absurd (hap.trans hc.symm) (hnone k a ha)
        · exact honly l c hl hc
      · rw [get_modify] at hl
        split at hl
        · obtain ⟨e, he, rfl⟩ := Option.map_eq_some_iff.mp hl
          rw [hus.update _ List.mem_cons_self] at hc
          exact honly l e he hc
        · exact honly l c hl hc

/-- After the loop the rows are there. -/
theorem Upserts.present (h : Upserts key several t us t') (hus : Overwrites key us) :
    Present key us t' := by
  induction h with
  | nil => intro w hw; cases hw
  | @cons t t₁ t'' u k us hu hrest ih =>
    have hrest' := hus.mono (List.subset_cons_self _ _)
    intro w hw
    rcases List.mem_cons.mp hw with rfl | hw
    · have hthere : ∃ a, t₁.get k = some a ∧ key a = u.place := by
        rcases upsert_cases hu with ⟨_, rfl, rfl⟩ | ⟨a, ha, hkey, rfl⟩
        · exact ⟨_, get_insert_next, hus.create _ List.mem_cons_self⟩
        · refine ⟨u.update a, by rw [get_modify_self, ha]; rfl, ?_⟩
          rw [hus.update _ List.mem_cons_self, hkey]
      refine ⟨?_, fun j b hj hkey =>
        hrest.sole hrest' hthere (fun i c hi hc => upsert_only hu hi hc) hj hkey⟩
      obtain ⟨a, ha, hkey⟩ := hthere
      obtain ⟨b, hb, hsame⟩ := hrest.kept hrest'.update ha
      exact ⟨b, hb, hsame.trans hkey⟩
    · exact ih hrest' w hw

/-- The loop has nothing more to write to the rows that it left. -/
theorem Upserts.overwritten_eq (h : Upserts key several t us t') (hus : Overwrites key us)
    (ha : t'.get k = some a) : overwritten us k a = a := by
  induction h with
  | nil => rfl
  | @cons t t₁ t'' u j us hu hrest ih =>
    have hrest' := hus.mono (List.subset_cons_self _ _)
    rw [Table.overwritten, List.foldl_cons]
    by_cases hj : j = k
    · rw [if_pos hj]
      by_cases hlater : ∃ w ∈ us, w.2 = k
      · have hlast : ∀ w ∈ us, ∀ a, w.1.update (u.update a) = w.1.update a :=
          fun w hw => hus.last w (List.mem_cons_of_mem _ hw) (u, j) List.mem_cons_self
        exact (overwritten_update hlast hlater).trans (ih hrest' ha)
      · have hnone : ∀ w ∈ us, w.2 ≠ k := fun w hw hk => hlater ⟨w, hw, hk⟩
        refine (overwritten_of_ne hnone).trans ?_
        rw [hrest.untouched hnone] at ha
        rcases upsert_cases hu with ⟨_, rfl, rfl⟩ | ⟨b, hb, _, rfl⟩
        · rw [← hj, get_insert_next] at ha
          rw [← Option.some.inj ha, hus.created _ List.mem_cons_self]
        · rw [← hj, get_modify_self, hb] at ha
          rw [← Option.some.inj ha, hus.last _ List.mem_cons_self _ List.mem_cons_self]
    · rw [if_neg hj]
      exact ih hrest' ha

/-- A loop over rows that are there writes those rows. -/
theorem upserts_of_present (hus : Overwrites key us) (hpresent : Present key us t) :
    ∃ t', Upserts key several t us t' ∧ t'.next = t.next ∧
      ∀ k, t'.get k = (t.get k).map (overwritten us k) := by
  induction us generalizing t with
  | nil =>
    refine ⟨t, .nil, rfl, fun k => ?_⟩
    cases t.get k <;> rfl
  | cons w us ih =>
    have hrest := hus.mono (List.subset_cons_self _ _)
    obtain ⟨⟨a, ha, hkey⟩, honly⟩ := hpresent w List.mem_cons_self
    have hback : ∀ j b, (t.modify w.2 w.1.update).get j = some b →
        ∃ c, t.get j = some c ∧ key b = key c := by
      intro j b hj
      rw [get_modify] at hj
      split at hj
      · obtain ⟨c, hc, rfl⟩ := Option.map_eq_some_iff.mp hj
        exact ⟨c, hc, hus.update w List.mem_cons_self c⟩
      · exact ⟨b, hj, rfl⟩
    have hpresent' : Present key us (t.modify w.2 w.1.update) := by
      intro v hv
      obtain ⟨⟨c, hc, hckey⟩, hconly⟩ := hpresent v (List.mem_cons_of_mem _ hv)
      refine ⟨?_, fun j b hj hb => ?_⟩
      · rw [get_modify, hc]
        split
        · exact ⟨w.1.update c, rfl, (hus.update w List.mem_cons_self c).trans hckey⟩
        · exact ⟨c, rfl, hckey⟩
      · obtain ⟨d, hd, hsame⟩ := hback j b hj
        exact hconly j d hd (hsame.symm.trans hb)
    obtain ⟨t', ht', hnext, hget⟩ := ih hrest hpresent'
    refine ⟨t', .cons (upsert_of_present ha hkey honly) ht', hnext, fun k => ?_⟩
    rw [hget, get_modify]
    by_cases hk : k = w.2
    · subst hk
      rw [if_pos rfl, ha]
      simp [overwritten]
    · rw [if_neg hk]
      have hne : w.2 ≠ k := fun h => hk h.symm
      cases t.get k with
      | none => rfl
      | some c => simp [overwritten, hne]

/-- What ran once changes nothing when it runs again, also where other rows are gone, and where
rows differ in columns that the loop does not write. -/
theorem Upserts.again {t₂ : Table α} (h : Upserts key several t us t') (hus : Overwrites key us)
    (hsub : ∀ j b, t₂.get j = some b → ∃ c, t'.get j = some c ∧ key b = key c ∧
      (overwritten us j c = c → overwritten us j b = b))
    (hkept : ∀ w ∈ us, ∀ a, t'.get w.2 = some a → (t₂.get w.2).isSome) :
    Upserts key several t₂ us t₂ := by
  have hpresent : Present key us t₂ := by
    intro w hw
    obtain ⟨⟨a, ha, hkey⟩, honly⟩ := h.present hus w hw
    refine ⟨?_, fun j b hj hb => ?_⟩
    · obtain ⟨b, hb⟩ := Option.isSome_iff_exists.mp (hkept w hw a ha)
      obtain ⟨c, hc, hsame, _⟩ := hsub w.2 b hb
      rw [ha] at hc
      cases hc
      exact ⟨b, hb, hsame.trans hkey⟩
    · obtain ⟨c, hc, hsame, _⟩ := hsub j b hj
      exact honly j c hc (hsame.symm.trans hb)
  obtain ⟨t'', h', hnext, hget⟩ := @upserts_of_present _ _ _ key several _ _ _ hus hpresent
  have hsame : t'' = t₂ := by
    ext : 1
    · funext k
      show t''.get k = t₂.get k
      rw [hget]
      cases hb : t₂.get k with
      | none => rfl
      | some b =>
        obtain ⟨c, hc, _, hwritten⟩ := hsub k b hb
        rw [Option.map_some, hwritten (h.overwritten_eq hus hc)]
    · exact hnext
  rw [hsame] at h'
  exact h'

/-- What ran once changes nothing when it runs at once again. -/
theorem Upserts.again_self (h : Upserts key several t us t') (hus : Overwrites key us) :
    Upserts key several t' us t' := by
  refine h.again hus (fun j b hj => ⟨b, hj, rfl, id⟩) fun w _ a ha => ?_
  rw [ha]
  rfl

end Table
end Interleave
