import Rekuest.Matching.Forest
import Rekuest.Structures

/-!
# Rekuest.Structures.Lineage

The rows above a row, and their paths.

* `Lineage`: the rows above a row, each with the path of the one above it and its own key.
* `lineage_of_created`: the rows of a port tree have one, along the parent links.
-/

namespace Rekuest
namespace Structures

open Ports

/-- The path of a row with this key below a row with this path. -/
def below (parentPath key : String) : String :=
  if parentPath = "" then key else parentPath ++ "." ++ key

inductive Lineage (rows : List PortRow) : List PortRow → PortRow → Prop where
  | root {row : PortRow} : row.parent = none → row.keyPath = row.key → Lineage rows [] row
  | child {above : List PortRow} {parent row : PortRow} : Lineage rows above parent →
      parent ∈ rows → row.keyPath = below parent.keyPath row.key →
      Lineage rows (above ++ [parent]) row

/-- A row is of the first level, or stands behind its parent, whose path it continues. -/
theorem path_of_created {fuel created i : Nat} {level : List Pending} {q : Pending}
    (hq : (createdIn fuel created level)[i]? = some q) :
    q ∈ level ∨ ∃ j p, j < i ∧ (createdIn fuel created level)[j]? = some p ∧
      q.parent = some (created + j) ∧ q.parentPath = p.path := by
  induction fuel generalizing created level i with
  | zero => cases hq
  | succ fuel ih =>
    unfold createdIn at hq ⊢
    split at hq
    · cases hq
    · rename_i hempty
      rw [if_neg hempty]
      by_cases hi : i < level.length
      · rw [List.getElem?_append_left hi] at hq
        exact .inl (List.mem_of_getElem? hq)
      · right
        rw [List.getElem?_append_right (by omega)] at hq
        rcases ih hq with hmem | ⟨j, p, hj, hp, hparent, hpath⟩
        · obtain ⟨j, p, hp, hmem⟩ := mem_nextLevel.mp hmem
          obtain ⟨hparent, hpath, _⟩ := mem_siblings.mp hmem
          obtain ⟨hj, _⟩ := List.getElem?_eq_some_iff.mp hp
          exact ⟨j, p, by omega, by rw [List.getElem?_append_left hj, hp], hparent, hpath⟩
        · refine ⟨level.length + j, p, by omega, ?_, ?_, hpath⟩
          · rw [List.getElem?_append_right (by omega), Nat.add_sub_cancel_left, hp]
          · rw [hparent, Nat.add_assoc]

variable {compiler : List Descriptor → Except Error (Option String)} {ports : List Port}
  {rows : List PortRow}

theorem row_of_created (hrows : bulkCreatePorts compiler ports = .ok rows) {i : Nat}
    {row : PortRow} (hrow : rows[i]? = some row) :
    (row.parent = none ∧ row.keyPath = row.key) ∨
      ∃ j parent, j < i ∧ rows[j]? = some parent ∧ row.parent = some j ∧
        row.keyPath = below parent.keyPath row.key := by
  have hall := Managers.getElem?_of_forall₂ (createLevels_ok hrows)
  obtain ⟨q, hq, hbuild⟩ := (hall i).2 row hrow
  obtain ⟨_, _, rfl⟩ := Managers.build_ok hbuild
  rcases path_of_created hq with hmem | ⟨j, p, hj, hp, hparent, hpath⟩
  · obtain ⟨hparent, hpath, _⟩ := mem_siblings.mp hmem
    exact .inl ⟨hparent, by simp [Pending.path, hpath]⟩
  · obtain ⟨parent, hprow, hpbuild⟩ := (hall j).1 p hp
    obtain ⟨_, _, rfl⟩ := Managers.build_ok hpbuild
    refine .inr ⟨j, _, hj, hprow, by rw [hparent, Nat.zero_add], ?_⟩
    show q.path = below p.path q.port.key
    rw [← hpath]
    rfl

/-- The walk up the parent links finds the lineage of a row. -/
theorem lineage_of_created (hrows : bulkCreatePorts compiler ports = .ok rows) {i fuel : Nat}
    {row : PortRow} (hrow : rows[i]? = some row) (hfuel : i < fuel) :
    Lineage rows (ancestorsOf rows fuel row.parent) row := by
  induction fuel generalizing i row with
  | zero => omega
  | succ fuel ih =>
    rcases row_of_created hrows hrow with ⟨hnone, hpath⟩ | ⟨j, parent, hj, hparent, hlink, hpath⟩
    · rw [hnone]
      exact .root hnone hpath
    · rw [hlink, ancestorsOf, hparent]
      exact .child (ih hparent (by omega)) (List.mem_of_getElem? hparent) hpath

theorem lineage (hrows : bulkCreatePorts compiler ports = .ok rows) {row : PortRow}
    (hrow : row ∈ rows) : Lineage rows (properAncestors rows row) row := by
  obtain ⟨i, hi⟩ := List.mem_iff_getElem?.mp hrow
  obtain ⟨hlt, _⟩ := List.getElem?_eq_some_iff.mp hi
  exact lineage_of_created hrows hi hlt

theorem Lineage.mem {above : List PortRow} {row t : PortRow} (h : Lineage rows above row)
    (ht : t ∈ above) : t ∈ rows := by
  induction h with
  | root _ _ => cases ht
  | child _ hparent _ ih =>
    rcases List.mem_append.mp ht with ht | ht
    · exact ih ht
    · rw [List.mem_singleton.mp ht]
      exact hparent

/-! ## Dot-prefixes -/

open Coding

theorem dotPrefixes_eq (keyPath : String) :
    dotPrefixes keyPath = (cuts '.' keyPath.toList).map String.ofList := by
  rw [← map_take_splitOn, List.map_map]
  rfl

theorem dotPrefixes_nodup (keyPath : String) : (dotPrefixes keyPath).Nodup := by
  rw [dotPrefixes_eq]
  exact cuts_nodup.map fun _ _ h => String.ofList_injective h

theorem mem_dotPrefixes {keyPath q : String} :
    q ∈ dotPrefixes keyPath ↔ ∃ key, keyPath = q ++ "." ++ key := by
  rw [dotPrefixes_eq, List.mem_map]
  constructor
  · rintro ⟨cs, hcs, rfl⟩
    obtain ⟨r, hr⟩ := mem_cuts.mp hcs
    refine ⟨String.ofList r, String.toList_injective ?_⟩
    simp [hr]
  · rintro ⟨key, rfl⟩
    exact ⟨q.toList, mem_cuts.mpr ⟨key.toList, by simp⟩, by simp⟩

/-- The dot-prefixes of a path below another: those of that one, that one, and where the key itself
has a dot. -/
theorem dotPrefixes_below {parentPath : String} (key : String) (h : parentPath ≠ "") :
    dotPrefixes (below parentPath key) = dotPrefixes parentPath ++ parentPath ::
      (cuts '.' key.toList).map fun cs => String.ofList (parentPath.toList ++ '.' :: cs) := by
  have hlist : (below parentPath key).toList = parentPath.toList ++ '.' :: key.toList := by
    rw [below, if_neg h]
    simp
  rw [dotPrefixes_eq, hlist, cuts_append, dotPrefixes_eq]
  simp [Function.comp_def]

theorem length_lt_of_mem_dotPrefixes {keyPath q : String} (h : q ∈ dotPrefixes keyPath) :
    q.toList.length < keyPath.toList.length := by
  obtain ⟨key, rfl⟩ := mem_dotPrefixes.mp h
  simp

theorem below_ne_empty {parentPath key : String} (h : parentPath ≠ "") :
    below parentPath key ≠ "" := by
  intro heq
  rw [below, if_neg h] at heq
  have hlength := congrArg (fun s => s.toList.length) heq
  simp at hlength

/-- Below a root with a key no path is lost: the paths of the rows above are the dot-prefixes, but
for those at a dot of a key. -/
theorem Lineage.prefixes {above : List PortRow} {row : PortRow} (h : Lineage rows above row)
    (hkey : (above.headD row).key ≠ "") :
    row.keyPath ≠ "" ∧ ∃ L : List (String × List String),
      L.map Prod.fst = dotPrefixes row.keyPath ∧ L.flatMap Prod.snd = above.flatMap modifiersOf ∧
      (∀ t ∈ above, t.keyPath ∈ dotPrefixes row.keyPath) ∧
      ∀ e ∈ L, (∃ t ∈ above, t.keyPath = e.1 ∧ e.2 = modifiersOf t) ∨
        e.2 = [] ∧ ∀ t ∈ above, t.keyPath ≠ e.1 := by
  induction h with
  | @root row _ hpath =>
    refine ⟨by rw [hpath]; exact hkey, (dotPrefixes row.keyPath).map fun q => (q, []), ?_, ?_, ?_, ?_⟩
    · simp [Function.comp_def]
    · simp
    · simp
    · intro e he
      obtain ⟨q, _, rfl⟩ := List.mem_map.mp he
      exact .inr ⟨rfl, by simp⟩
  | @child above parent row _ _ hpath ih =>
    have hroot : (above.headD parent).key ≠ "" := by
      cases above with
      | nil => exact hkey
      | cons t above => exact hkey
    obtain ⟨hne, L, hfst, hsnd, hmem, hall⟩ := ih hroot
    have hprefixes := dotPrefixes_below row.key hne
    rw [← hpath] at hprefixes
    refine ⟨by rw [hpath]; exact below_ne_empty hne,
      L ++ (parent.keyPath, modifiersOf parent) :: ((cuts '.' row.key.toList).map fun cs =>
        (String.ofList (parent.keyPath.toList ++ '.' :: cs), [])), ?_, ?_, ?_, ?_⟩
    · rw [hprefixes, ← hfst]
      simp [Function.comp_def]
    · simp [hsnd, List.flatMap_map]
    · intro t ht
      rw [hprefixes]
      rcases List.mem_append.mp ht with ht | ht
      · exact List.mem_append_left _ (hmem t ht)
      · rw [List.mem_singleton.mp ht]
        simp
    · intro e he
      rcases List.mem_append.mp he with he | he
      · rcases hall e he with ⟨t, ht, hpair⟩ | ⟨hnil, hnone⟩
        · exact .inl ⟨t, List.mem_append_left _ ht, hpair⟩
        · refine .inr ⟨hnil, fun t ht => ?_⟩
          rcases List.mem_append.mp ht with ht | ht
          · exact hnone t ht
          · rw [List.mem_singleton.mp ht]
            intro heq
            have hin : e.1 ∈ dotPrefixes parent.keyPath := by
              rw [← hfst]
              exact List.mem_map_of_mem he
            have hlt := length_lt_of_mem_dotPrefixes hin
            rw [heq] at hlt
            omega
      · rcases List.mem_cons.mp he with rfl | he
        · exact .inl ⟨parent, by simp, rfl, rfl⟩
        · obtain ⟨cs, _, rfl⟩ := List.mem_map.mp he
          refine .inr ⟨rfl, fun t ht heq => ?_⟩
          have hlength := congrArg (fun s => s.toList.length) heq
          rcases List.mem_append.mp ht with ht | ht
          · have hlt := length_lt_of_mem_dotPrefixes (hmem t ht)
            simp at hlength
            omega
          · rw [List.mem_singleton.mp ht] at hlength
            simp at hlength

end Structures
end Rekuest
