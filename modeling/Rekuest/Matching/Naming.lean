import Rekuest.Matching.Clauses

/-!
# Rekuest.Matching.Naming

The names of the parameters, told apart by the words that they are built from.

* `Under`: a parameter of the match at a path, or of one below it.
* `names_buildMatchExists`: the parameters of a match have names of their own, all under its path.
* `reads_params`: parameters with names of their own are read as they were set.
-/

namespace Rekuest

theorem Dict.get?_update_of_notMem {α : Type} {d l : Dict α} {key : String}
    (h : key ∉ l.map Prod.fst) : (Dict.update d l).get? key = d.get? key := by
  induction l generalizing d with
  | nil => rfl
  | cons kv l ih =>
    simp only [List.map_cons, List.mem_cons, not_or] at h
    show (Dict.update (d.set kv.1 kv.2) l).get? key = _
    rw [ih h.2, Dict.get?_set, if_neg h.1]

/-- Of keys that are set once, each has the value that was set. -/
theorem Dict.get?_update_of_nodup {α : Type} {d l : Dict α} (h : (l.map Prod.fst).Nodup)
    {kv : String × α} (hkv : kv ∈ l) : (Dict.update d l).get? kv.1 = some kv.2 := by
  induction l generalizing d with
  | nil => cases hkv
  | cons kv' l ih =>
    rw [List.map_cons, List.nodup_cons] at h
    show (Dict.update (d.set kv'.1 kv'.2) l).get? kv.1 = _
    rcases List.mem_cons.mp hkv with rfl | hkv
    · rw [Dict.get?_update_of_notMem h.1, Dict.get?_set, if_pos rfl]
    · exact ih h.2 hkv

namespace Managers

open Coding Fallible Sql
open scoped List

/-- The parameters, in the order in which they were set. -/
def Built.names (b : Built) : List String := b.assigned.map Prod.fst

@[simp] theorem Built.names_append (b c : Built) : (b ++ c).names = b.names ++ c.names :=
  List.map_append

@[simp] theorem Built.names_one (c : Clause) (key : String) (value : SqlValue) :
    (one c key value).names = [key] := rfl

theorem Built.names_concat (bs : List Built) : (concat bs).names = bs.flatMap names := by
  rw [names, concat_assigned, List.map_flatMap]
  rfl

/-- Parameters with names of their own are read as they were set. -/
theorem Built.reads_params {b : Built} (h : b.names.Nodup) : b.Reads b.params.get? :=
  fun _ hkv => Dict.get?_update_of_nodup h hkv

/-! ## Paths -/

/-- The tags of the parameters of a match. -/
def tags : List String := ["at", "key", "kind", "ident", "dim", "null", "obj"]

/-- A parameter of the match at this path, or of one below it. -/
def Under (idPath key : String) : Prop :=
  ∃ tag ∈ tags, ∃ path : List Nat, words key = words tag ++ (words idPath ++ path.map numeral)

theorem words_of_mem_tags {tag : String} (h : tag ∈ tags) : words tag = [tag.toList] := by
  refine words_of_plain ?_
  revert h
  revert tag
  decide

variable {idPath : String} {key : String}

theorem Under.of_own {tag : String} (h : tag ∈ tags) : Under idPath (snake tag idPath) :=
  ⟨tag, h, [], by simp⟩

theorem Under.of_child {i : Nat} (h : Under (snake idPath (toString i)) key) :
    Under idPath key := by
  obtain ⟨tag, htag, path, hwords⟩ := h
  exact ⟨tag, htag, i :: path, by simpa [words_toString] using hwords⟩

/-- A parameter of a match is none of its children's. -/
theorem Under.not_own {i : Nat} (h : Under (snake idPath (toString i)) key) :
    key ∉ tags.map (snake · idPath) := by
  intro hown
  obtain ⟨tag, htag, path, hwords⟩ := h
  obtain ⟨tag', htag', rfl⟩ := List.mem_map.mp hown
  have hlength := congrArg List.length hwords
  simp [words_of_mem_tags htag, words_of_mem_tags htag'] at hlength

/-- Children in different places have no parameter in common. -/
theorem Under.child_inj {i j : Nat} (hi : Under (snake idPath (toString i)) key)
    (hj : Under (snake idPath (toString j)) key) : i = j := by
  obtain ⟨tag, htag, path, hi⟩ := hi
  obtain ⟨tag', htag', path', hj⟩ := hj
  rw [hi] at hj
  simp only [words_snake, words_toString, words_of_mem_tags htag, words_of_mem_tags htag',
    List.append_assoc, List.cons_append, List.nil_append, List.cons.injEq] at hj
  exact numeral_inj.mp (List.cons.inj (List.append_cancel_left hj.2)).1

/-! ## The parameters of a match -/

theorem flatMap_sublist_map {α β : Type} {f : α → List β} {g : α → β} {l : List α}
    (h : ∀ a ∈ l, f a <+ [g a]) : l.flatMap f <+ l.map g := by
  induction l with
  | nil => exact .slnil
  | cons a l ih =>
    rw [List.flatMap_cons, List.map_cons]
    exact (h a List.mem_cons_self).append (ih fun b hb => h b (List.mem_cons_of_mem _ hb))

theorem names_structural (label : String) (f : StructuralField) :
    (f.build label idPath).names <+ [snake f.tag idPath] := by
  unfold StructuralField.build
  cases f.value with
  | none => exact List.nil_sublist _
  | some value => exact List.Sublist.refl _

/-- What a match sets for itself. -/
theorem own_sublist (idPath label : String) (m : PortMatch) :
    (Built.concat (m.structuralFields.map (StructuralField.build label idPath)) ++
      m.buildDescriptors label idPath).names <+ tags.map (snake · idPath) := by
  have hfields : (Built.concat (m.structuralFields.map (StructuralField.build label idPath))).names
      <+ m.structuralFields.map fun f => snake f.tag idPath := by
    rw [Built.names_concat, List.flatMap_map]
    exact flatMap_sublist_map fun f _ => names_structural label f
  have hpath : (m.buildDescriptors label idPath).names <+ [snake "obj" idPath] := by
    unfold PortMatch.buildDescriptors
    split
    · exact List.nil_sublist _
    · exact List.Sublist.refl _
  rw [Built.names_append]
  exact hfields.append hpath

theorem own_nodup : (tags.map (snake · idPath)).Nodup :=
  List.Nodup.map (fun _ _ h => snake_left_inj.mp h) (by decide)

mutual
/-- The parameters of a match have names of their own, all under its path. -/
theorem names_buildMatchExists {table actionLabel : String} {parentLabel : Option String}
    {m : PortMatch} {idPath : String} {b : Built}
    (hb : buildMatchExists table actionLabel parentLabel idPath m = .ok b) :
    b.names.Nodup ∧ ∀ key ∈ b.names, Under idPath key := by
  obtain ⟨_, nested, hnested, rfl⟩ := buildMatchExists_ok_iff.mp hb
  have hown := own_sublist idPath (snake "p" idPath) m
  have hchildren : nested.names.Nodup ∧
      ∀ key ∈ nested.names, ∃ j, 0 ≤ j ∧ Under (snake idPath (toString j)) key := by
    cases m with
    | mk _ _ _ _ _ _ _ children => exact names_buildChildren hnested
  have hnames : Built.names ⟨[.exists_ (.table table (snake "p" idPath))
      (innerClauses actionLabel parentLabel idPath m nested).conditions],
      (innerClauses actionLabel parentLabel idPath m nested).assigned⟩ =
      (Built.concat (m.structuralFields.map (StructuralField.build (snake "p" idPath) idPath)) ++
        m.buildDescriptors (snake "p" idPath) idPath).names ++ nested.names := by
    show (innerClauses actionLabel parentLabel idPath m nested).names = _
    simp only [innerClauses, Built.names_append]
    rfl
  rw [hnames]
  constructor
  · refine List.nodup_append.mpr ⟨own_nodup.sublist hown, hchildren.1, ?_⟩
    rintro key hkey key' hkey' rfl
    obtain ⟨j, _, hunder⟩ := hchildren.2 key hkey'
    exact hunder.not_own (hown.subset hkey)
  · intro key hkey
    rcases List.mem_append.mp hkey with hkey | hkey
    · obtain ⟨tag, htag, rfl⟩ := List.mem_map.mp (hown.subset hkey)
      exact .of_own htag
    · obtain ⟨j, _, hunder⟩ := hchildren.2 key hkey
      exact hunder.of_child

theorem names_buildChildren {table actionLabel label : String} {ms : List PortMatch}
    {idPath : String} {i : Nat} {b : Built}
    (hb : buildChildren table actionLabel label idPath i ms = .ok b) :
    b.names.Nodup ∧ ∀ key ∈ b.names, ∃ j, i ≤ j ∧ Under (snake idPath (toString j)) key := by
  cases ms with
  | nil =>
    cases hb
    exact ⟨.nil, by simp [Built.names]⟩
  | cons m ms =>
    obtain ⟨first, others, hfirst, hothers, rfl⟩ := buildChildren_cons_ok_iff.mp hb
    obtain ⟨hnodup, hunder⟩ := names_buildMatchExists hfirst
    obtain ⟨hnodup', hunder'⟩ := names_buildChildren hothers
    rw [Built.names_append]
    constructor
    · refine List.nodup_append.mpr ⟨hnodup, hnodup', ?_⟩
      rintro key hkey key' hkey' rfl
      obtain ⟨j, hj, hother⟩ := hunder' key hkey'
      have := (hunder key hkey).child_inj hother
      omega
    · intro key hkey
      rcases List.mem_append.mp hkey with hkey | hkey
      · exact ⟨i, le_rfl, hunder key hkey⟩
      · obtain ⟨j, hj, hother⟩ := hunder' key hkey
        exact ⟨j, by omega, hother⟩
end

end Managers
end Rekuest
