import Rekuest.Canonical

/-!
# Rekuest.Canonical.Form

Equal arguments have one encoding.

* `Json.Distinct`: in every object each key comes once, as in a Python `dict`.
* `sortMembers_eq`: dictionaries that hold the same are sorted into the same members.
* `dumps_of_same`: equal values have one encoding. With `dumps_told`: `canonicalizeArgs_iff`.
-/

namespace Rekuest

mutual
/-- No object has a key twice. -/
def Json.Distinct : Json → Prop
  | .arr items => DistinctItems items
  | .obj members => Dict.NodupKeys members ∧ DistinctMembers members
  | _ => True

def Json.DistinctItems : List Json → Prop
  | [] => True
  | v :: vs => v.Distinct ∧ Json.DistinctItems vs

def Json.DistinctMembers : Dict Json → Prop
  | [] => True
  | (_, v) :: members => v.Distinct ∧ Json.DistinctMembers members
end

namespace Canonical

open Coding

theorem distinctItems_iff {items : List Json} :
    Json.DistinctItems items ↔ ∀ v ∈ items, v.Distinct := by
  induction items with
  | nil => simp [Json.DistinctItems]
  | cons v vs ih => simp [Json.DistinctItems, ih]

theorem distinctMembers_iff {members : Dict Json} :
    Json.DistinctMembers members ↔ ∀ m ∈ members, m.2.Distinct := by
  induction members with
  | nil => simp [Json.DistinctMembers]
  | cons m ms ih =>
    obtain ⟨key, v⟩ := m
    simp only [Json.DistinctMembers, ih, List.forall_mem_cons]

/-! ## Sorted members -/

section

variable {α : Type} {ms ns : Dict α}

theorem mem_iff_get? (h : ms.NodupKeys) {m : String × α} : m ∈ ms ↔ ms.get? m.1 = some m.2 :=
  ⟨Dict.get?_of_mem h, Dict.mem_of_get?⟩

/-- The same under every key, each key once: the same members in some order. -/
theorem perm_of_get? (hms : ms.NodupKeys) (hns : ns.NodupKeys)
    (h : ∀ key, ms.get? key = ns.get? key) : ms.Perm ns := by
  rw [List.perm_ext_iff_of_nodup (List.Nodup.of_map _ hms) (List.Nodup.of_map _ hns)]
  intro m
  rw [mem_iff_get? hms, mem_iff_get? hns, h]

theorem sorted_sortMembers (ms : Dict α) :
    (sortMembers ms).Pairwise fun m n : String × α => m.1 ≤ n.1 := by
  have htotal : Std.Total fun m n : String × α => m.1 ≤ n.1 := ⟨fun m n => String.le_total m.1 n.1⟩
  have htrans : IsTrans (String × α) fun m n => m.1 ≤ n.1 := ⟨fun _ _ _ => String.le_trans⟩
  exact List.pairwise_insertionSort _ ms

theorem sortMembers_eq (hms : ms.NodupKeys) (hns : ns.NodupKeys)
    (h : ∀ key, ms.get? key = ns.get? key) : sortMembers ms = sortMembers ns := by
  have hsorted : (sortMembers ms).Perm ms := List.perm_insertionSort _ ms
  have hsorted' : (sortMembers ns).Perm ns := List.perm_insertionSort _ ns
  refine List.Perm.eq_of_pairwise (fun m n hm hn hle hge => ?_) (sorted_sortMembers ms)
    (sorted_sortMembers ns) ((hsorted.trans (perm_of_get? hms hns h)).trans hsorted'.symm)
  have hkey : m.1 = n.1 := String.le_antisymm hle hge
  have hm' := (mem_iff_get? hms).mp (hsorted.mem_iff.mp hm)
  have hn' := (mem_iff_get? hns).mp (hsorted'.mem_iff.mp hn)
  rw [hkey, h, hn'] at hm'
  exact Prod.ext hkey (Option.some.inj hm').symm

end

theorem dumpsMembers_keys (members : Dict Json) :
    (dumpsMembers members).map Prod.fst = members.map Prod.fst := by
  rw [dumpsMembers_eq, List.map_map]
  rfl

theorem get?_dumpsMembers (members : Dict Json) (key : String) :
    (dumpsMembers members).get? key = (members.get? key).map dumps := by
  induction members with
  | nil =>
    rw [dumpsMembers]
    rfl
  | cons m ms ih =>
    obtain ⟨k, v⟩ := m
    rw [dumpsMembers, Dict.get?_cons, Dict.get?_cons, ih]
    by_cases hk : key = k <;> simp [hk]

/-! ## Equal values -/

/-- Equal values are written in one way. -/
def OneText (v : Json) : Prop := ∀ w, Json.Same v w → v.Distinct → w.Distinct → dumps v = dumps w

theorem oneText_items {items : List Json} (h : ∀ v ∈ items, OneText v) : OneText (.arr items) := by
  intro w hsame hv hw
  cases hsame with
  | @arr _ items' hall =>
    simp only [Json.Distinct, distinctItems_iff] at hv hw
    have hdumps : items.map dumps = items'.map dumps := by
      induction hall with
      | nil => rfl
      | @cons v w vs ws hvw _ ih =>
        simp only [List.map_cons]
        rw [h v (by simp) w hvw (hv v (by simp)) (hw w (by simp)),
          ih (fun v hv => h v (by simp [hv])) (fun u hu => hv u (by simp [hu]))
            fun u hu => hw u (by simp [hu])]
    rw [dumps, dumps, dumpsItems_eq, dumpsItems_eq, hdumps]

theorem oneText_members {members : Dict Json} (h : ∀ m ∈ members, OneText m.2) :
    OneText (.obj members) := by
  intro w hsame hv hw
  cases hsame with
  | @obj _ members' hall =>
    simp only [Json.Distinct, distinctMembers_iff] at hv hw
    have hkeys : (dumpsMembers members).NodupKeys := by
      rw [Dict.NodupKeys, dumpsMembers_keys]
      exact hv.1
    have hkeys' : (dumpsMembers members').NodupKeys := by
      rw [Dict.NodupKeys, dumpsMembers_keys]
      exact hw.1
    have hget : ∀ key, (dumpsMembers members).get? key = (dumpsMembers members').get? key := by
      intro key
      rw [get?_dumpsMembers, get?_dumpsMembers]
      have hrel := hall key
      cases hm : members.get? key with
      | none =>
        cases hn : members'.get? key with
        | none => rfl
        | some u =>
          rw [hm, hn] at hrel
          cases hrel
      | some u =>
        cases hn : members'.get? key with
        | none =>
          rw [hm, hn] at hrel
          cases hrel
        | some u' =>
          rw [hm, hn] at hrel
          cases hrel with
          | some hsame =>
            have hmem := Dict.mem_of_get? hm
            have htext := h _ hmem u' hsame (hv.2 _ hmem) (hw.2 _ (Dict.mem_of_get? hn))
            exact congrArg some htext
    rw [dumps, dumps, sortMembers_eq hkeys hkeys' hget]

mutual
theorem dumps_of_same : (v : Json) → OneText v
  | .null => fun w hsame _ _ => by
    cases hsame
    rfl
  | .bool _ => fun w hsame _ _ => by
    cases hsame
    rfl
  | .num _ => fun w hsame _ _ => by
    cases hsame
    rfl
  | .float _ => fun w hsame _ _ => by
    cases hsame
    rfl
  | .str _ => fun w hsame _ _ => by
    cases hsame
    rfl
  | .arr items => oneText_items (dumpsItems_of_same items)
  | .obj members => oneText_members (dumpsMembers_of_same members)

theorem dumpsItems_of_same : (items : List Json) → ∀ v ∈ items, OneText v
  | [] => fun _ h => absurd h (List.not_mem_nil)
  | v :: vs => fun u h => (List.mem_cons.mp h).elim (fun hu => hu ▸ dumps_of_same v)
      (dumpsItems_of_same vs u)

theorem dumpsMembers_of_same : (members : Dict Json) → ∀ m ∈ members, OneText m.2
  | [] => fun _ h => absurd h (List.not_mem_nil)
  | (_, v) :: ms => fun m h => (List.mem_cons.mp h).elim (fun hm => hm ▸ dumps_of_same v)
      (dumpsMembers_of_same ms m)
end

/-! ## Bytes -/

theorem canonicalizeArgs_iff {x y : Dict Json} (hx : (Json.obj x).Distinct)
    (hy : (Json.obj y).Distinct) :
    canonicalizeArgs x = canonicalizeArgs y ↔ Json.Same (.obj x) (.obj y) := by
  constructor
  · exact same_of_canonicalizeArgs
  · intro hsame
    rw [canonicalizeArgs, canonicalizeArgs, dumps_of_same (.obj x) (.obj y) hsame hx hy]

end Canonical
end Rekuest
