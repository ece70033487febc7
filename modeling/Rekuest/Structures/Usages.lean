import Rekuest.Structures.Lineage

/-!
# Rekuest.Structures.Usages

When the usages that are looked up are those of the port trees.

* `Picks`: one row for every dot-prefix that is the path of one. The lookup takes such a choice, and
  in some order of the answers it takes any (`picks_of_answering`, `answering_of_picks`).
* `Told`: what the paths of the rows of an action tell of a port.
* `followsTrees_iff`: the lookup is right, in whatever order the database answers, exactly when
  the paths tell the usages.
-/

namespace Rekuest
namespace Structures

open Interleave (Table)
open Ports

/-- For every dot-prefix of the path a row with this path, if there is one. -/
def Picks (rows : List PortRow) (keyPath : String) (pick : String → Option PortRow) : Prop :=
  ∀ q ∈ dotPrefixes keyPath, (∀ f, pick q = some f → f ∈ rows ∧ f.keyPath = q) ∧
    (pick q = none → ∀ f ∈ rows, f.keyPath ≠ q)

/-- What the paths tell of a port. `root`: ports with the path before the first dot have the key
and the index of the root, and where there is no such port, the port itself has. `modifiers`: below
a root with a key, ports with the path of a proper ancestor are containers of its kind, or none, and
ports at the other dot-prefixes are no containers. `nameless`: the path of a root without a key is
lost. Ports at one dot-prefix are containers of one kind, or none, and those at the dot-prefixes are
in order of the kinds of the proper ancestors. -/
structure Told (rows : List PortRow) (row : PortRow) : Prop where
  root : ∀ q, (dotPrefixes row.keyPath).head? = some q → ∀ f ∈ rows, f.keyPath = q →
    f.key = (rootOf rows row).key ∧ f.index = (rootOf rows row).index
  rootless : (∀ q, (dotPrefixes row.keyPath).head? = some q → ∀ f ∈ rows, f.keyPath ≠ q) →
    row.key = (rootOf rows row).key ∧ row.index = (rootOf rows row).index
  modifiers : (rootOf rows row).key ≠ "" →
    (∀ t ∈ properAncestors rows row, ∀ f ∈ rows, f.keyPath = t.keyPath →
      modifiersOf f = modifiersOf t) ∧
    ∀ q ∈ dotPrefixes row.keyPath, (∀ t ∈ properAncestors rows row, t.keyPath ≠ q) →
      ∀ f ∈ rows, f.keyPath = q → modifiersOf f = []
  nameless : (rootOf rows row).key = "" →
    (∀ q ∈ dotPrefixes row.keyPath, ∀ f ∈ rows, ∀ g ∈ rows, f.keyPath = q → g.keyPath = q →
      modifiersOf f = modifiersOf g) ∧
    ((dotPrefixes row.keyPath).filterMap fun q => rows.find? fun f => f.keyPath = q).flatMap
      modifiersOf = (properAncestors rows row).flatMap modifiersOf

section

variable {rows : List PortRow} {row : PortRow} {action : ActionId} {pick : String → Option PortRow}

/-- A row at each path that has one. -/
theorem exists_picks (rows : List PortRow) (row : PortRow) :
    Picks rows row.keyPath fun q => rows.find? fun f => f.keyPath = q := by
  intro q _
  refine ⟨fun f hf => ?_, fun hnone f hf hq => ?_⟩
  · exact ⟨List.mem_of_find?_eq_some hf, by simpa using List.find?_some hf⟩
  · simpa [hq] using List.find?_eq_none.mp hnone f hf

/-- A choice that takes this row. -/
theorem Picks.exists_of_mem (row : PortRow) {f : PortRow} (hf : f ∈ rows) :
    ∃ pick, Picks rows row.keyPath pick ∧ pick f.keyPath = some f := by
  classical
  refine ⟨Function.update (fun q => rows.find? fun f => f.keyPath = q) f.keyPath (some f),
    fun q hq => ?_, Function.update_self _ _ _⟩
  by_cases hqf : q = f.keyPath
  · subst hqf
    rw [Function.update_self]
    refine ⟨fun g hg => ?_, fun hnone => by cases hnone⟩
    cases hg
    exact ⟨hf, rfl⟩
  · rw [Function.update_of_ne hqf]
    exact exists_picks rows row q hq

/-- The usage of a row by a choice of the rows at its dot-prefixes. -/
def usageBy (pick : String → Option PortRow) (action : ActionId) (row : PortRow) : PortUsage :=
  usageOf (action, row) ((dotPrefixes row.keyPath).map pick)

theorem usageBy_modifiers (action : ActionId) : (usageBy pick action row).modifiers =
    ((dotPrefixes row.keyPath).filterMap pick).flatMap modifiersOf := by
  rw [usageBy, usageOf, List.filterMap_map]
  rfl

/-- What is read at a path: the modifiers of a row there, or nothing. -/
def Reads (rows : List PortRow) (q : String) (m : List String) : Prop :=
  (∃ f ∈ rows, f.keyPath = q ∧ modifiersOf f = m) ∨ (∀ f ∈ rows, f.keyPath ≠ q) ∧ m = []

theorem Picks.reads (h : Picks rows row.keyPath pick) {q : String}
    (hq : q ∈ dotPrefixes row.keyPath) :
    Reads rows q ((pick q).toList.flatMap modifiersOf) := by
  cases hpick : pick q with
  | none => exact .inr ⟨(h q hq).2 hpick, rfl⟩
  | some f =>
    obtain ⟨hf, hpath⟩ := (h q hq).1 f hpick
    exact .inl ⟨f, hf, hpath, by simp⟩

theorem filterMap_flatMap_eq (l : List String) :
    (l.filterMap pick).flatMap modifiersOf = l.flatMap fun q => (pick q).toList.flatMap modifiersOf := by
  rw [List.filterMap_eq_flatMap_toList, List.flatMap_assoc]

theorem exists_reads (rows : List PortRow) (q : String) : ∃ m, Reads rows q m := by
  by_cases h : ∃ f ∈ rows, f.keyPath = q
  · obtain ⟨f, hf, hq⟩ := h
    exact ⟨_, .inl ⟨f, hf, hq, rfl⟩⟩
  · exact ⟨[], .inr ⟨fun f hf hq => h ⟨f, hf, hq⟩, rfl⟩⟩

/-- What can be read at each path is read by one choice. -/
theorem exists_picks_of_reads (row : PortRow) {v : String → List String} (h : ∀ q, Reads rows q (v q)) :
    ∃ pick, Picks rows row.keyPath pick ∧ ∀ q, (pick q).toList.flatMap modifiersOf = v q := by
  let pick : String → Option PortRow := fun q =>
    rows.find? fun f => f.keyPath = q && modifiersOf f = v q
  have hsome : ∀ q f, pick q = some f → f ∈ rows ∧ f.keyPath = q ∧ modifiersOf f = v q := by
    intro q f hf
    have hboth := List.find?_some hf
    rw [Bool.and_eq_true, decide_eq_true_iff, decide_eq_true_iff] at hboth
    exact ⟨List.mem_of_find?_eq_some hf, hboth⟩
  have hnone : ∀ q, pick q = none → (∀ f ∈ rows, f.keyPath ≠ q) ∧ v q = [] := by
    intro q hq
    rcases h q with ⟨f, hf, hpath, hm⟩ | hno
    · have hno := List.find?_eq_none.mp hq f hf
      simp [hpath, hm] at hno
    · exact hno
  refine ⟨pick, fun q _ => ⟨fun f hf => ?_, fun hq => (hnone q hq).1⟩, fun q => ?_⟩
  · obtain ⟨hmem, hpath, _⟩ := hsome q f hf
    exact ⟨hmem, hpath⟩
  · cases hq : pick q with
    | none => exact (hnone q hq).2.symm
    | some f => simpa using (hsome q f hq).2.2

/-- Whatever is picked, the same modifiers: at each dot-prefix there is only one answer. -/
theorem nameless_iff {ms : List String} :
    (∀ pick, Picks rows row.keyPath pick →
      ((dotPrefixes row.keyPath).filterMap pick).flatMap modifiersOf = ms) ↔
    (∀ q ∈ dotPrefixes row.keyPath, ∀ f ∈ rows, ∀ g ∈ rows, f.keyPath = q → g.keyPath = q →
      modifiersOf f = modifiersOf g) ∧
    ((dotPrefixes row.keyPath).filterMap fun q => rows.find? fun f => f.keyPath = q).flatMap
      modifiersOf = ms := by
  have hfirst := exists_picks rows row
  constructor
  · intro h
    have hms := h _ hfirst
    refine ⟨fun q hq f hf g hg hfq hgq => ?_, hms⟩
    let L : List (String × List String) := (dotPrefixes row.keyPath).map fun q =>
      (q, ((rows.find? fun f => f.keyPath = q).toList.flatMap modifiersOf))
    have hfst : L.map Prod.fst = dotPrefixes row.keyPath := by
      rw [List.map_map]
      exact List.map_id _
    have hforced := Coding.forced_of_choices (V := Reads rows) (L := L)
      (by rw [hfst]; exact dotPrefixes_nodup _) (exists_reads rows) (fun e he => ?_) fun v hv => ?_
    · have hmem : (q, (rows.find? fun f => f.keyPath = q).toList.flatMap modifiersOf) ∈ L :=
        List.mem_map_of_mem hq
      rw [hforced _ hmem _ (.inl ⟨f, hf, hfq, rfl⟩), hforced _ hmem _ (.inl ⟨g, hg, hgq, rfl⟩)]
    · obtain ⟨q', hq', rfl⟩ := List.mem_map.mp he
      exact .inr (hfirst.reads hq')
    · obtain ⟨pick, hpick, hv⟩ := exists_picks_of_reads row hv
      have hsame := (h pick hpick).trans hms.symm
      rw [filterMap_flatMap_eq, filterMap_flatMap_eq] at hsame
      simp only [hv] at hsame
      simpa [L, List.flatMap_map] using hsame
  · rintro ⟨hone, hms⟩ pick hpick
    rw [← hms, filterMap_flatMap_eq, filterMap_flatMap_eq]
    refine List.flatMap_congr fun q hq => ?_
    rcases hpick.reads hq with ⟨f, hf, hfq, hread⟩ | ⟨hno, hread⟩ <;>
      rcases hfirst.reads hq with ⟨g, hg, hgq, hread'⟩ | ⟨hno', hread'⟩
    · rw [← hread, ← hread']
      exact hone q hq f hf g hg hfq hgq
    · exact absurd hfq (hno' f hf)
    · exact absurd hgq (hno g hg)
    · rw [hread, hread']

/-- Below a root with a key: whatever is picked, the modifiers are right. -/
theorem modifiers_iff {above : List PortRow} (hline : Lineage rows above row)
    (hkey : (above.headD row).key ≠ "") :
    (∀ pick, Picks rows row.keyPath pick →
      ((dotPrefixes row.keyPath).filterMap pick).flatMap modifiersOf = above.flatMap modifiersOf) ↔
    (∀ t ∈ above, ∀ f ∈ rows, f.keyPath = t.keyPath → modifiersOf f = modifiersOf t) ∧
      ∀ q ∈ dotPrefixes row.keyPath, (∀ t ∈ above, t.keyPath ≠ q) →
        ∀ f ∈ rows, f.keyPath = q → modifiersOf f = [] := by
  obtain ⟨_, L, hfst, hsnd, hmem, hall⟩ := hline.prefixes hkey
  have hread : ∀ v : String → List String,
      (dotPrefixes row.keyPath).flatMap v = L.flatMap fun e => v e.1 := by
    intro v
    rw [← hfst, List.flatMap_map]
  constructor
  · intro h
    have hforced := Coding.forced_of_choices (V := Reads rows) (L := L)
      (by rw [hfst]; exact dotPrefixes_nodup _) (exists_reads rows) (fun e he => ?_) fun v hv => ?_
    · refine ⟨fun t ht f hf hpath => ?_, fun q hq hnone f hf hpath => ?_⟩
      · obtain ⟨e, he, hkey⟩ := List.mem_map.mp (hfst ▸ hmem t ht)
        rw [hforced e he _ (.inl ⟨f, hf, by rw [hpath, hkey], rfl⟩),
          hforced e he _ (.inl ⟨t, hline.mem ht, by rw [hkey], rfl⟩)]
      · obtain ⟨e, he, hkey⟩ := List.mem_map.mp (hfst ▸ hq)
        rcases hall e he with ⟨t, ht, hpair, _⟩ | ⟨hnil, _⟩
        · exact absurd (hpair.trans hkey) (hnone t ht)
        · rw [hforced e he _ (.inl ⟨f, hf, by rw [hpath, hkey], rfl⟩), hnil]
    · rcases hall e he with ⟨t, ht, hpath, hm⟩ | ⟨hnil, _⟩
      · exact .inr (.inl ⟨t, hline.mem ht, hpath, hm.symm⟩)
      · exact .inl hnil
    · obtain ⟨pick, hpick, hv⟩ := exists_picks_of_reads row hv
      have hsame := h pick hpick
      rw [filterMap_flatMap_eq, hread] at hsame
      simp only [hv] at hsame
      rw [hsame, hsnd]
  · rintro ⟨habove, hbetween⟩ pick hpick
    rw [filterMap_flatMap_eq, hread, ← hsnd]
    refine List.flatMap_congr fun e he => ?_
    have hq : e.1 ∈ dotPrefixes row.keyPath := by
      rw [← hfst]
      exact List.mem_map_of_mem he
    rcases hall e he with ⟨t, ht, hpath, hm⟩ | ⟨hnil, hnone⟩
    · rcases hpick.reads hq with ⟨f, hf, hfq, hread⟩ | ⟨hno, _⟩
      · rw [← hread, hm]
        exact habove t ht f hf (hfq.trans hpath.symm)
      · exact absurd hpath (hno t (hline.mem ht))
    · rcases hpick.reads hq with ⟨f, hf, hfq, hread⟩ | ⟨_, hread⟩
      · rw [← hread, hnil]
        exact hbetween e.1 hq hnone f hf hfq
      · rw [hread, hnil]

theorem usageBy_root : (usageBy pick action row).portKey =
      ((((dotPrefixes row.keyPath).head?.bind pick).getD row).key) ∧
    (usageBy pick action row).index =
      ((((dotPrefixes row.keyPath).head?.bind pick).getD row).index) := by
  have hhead : (((dotPrefixes row.keyPath).map pick).head?.bind id) =
      (dotPrefixes row.keyPath).head?.bind pick := by
    cases dotPrefixes row.keyPath <;> rfl
  constructor
  · show ((((dotPrefixes row.keyPath).map pick).head?.bind id).getD row).key = _
    rw [hhead]
  · show ((((dotPrefixes row.keyPath).map pick).head?.bind id).getD row).index = _
    rw [hhead]

/-- Whatever is picked, the root is the right one. -/
theorem root_iff (root : PortRow) :
    (∀ pick, Picks rows row.keyPath pick → (usageBy pick action row).portKey = root.key ∧
      (usageBy pick action row).index = root.index) ↔
    (∀ q, (dotPrefixes row.keyPath).head? = some q → ∀ f ∈ rows, f.keyPath = q →
      f.key = root.key ∧ f.index = root.index) ∧
    ((∀ q, (dotPrefixes row.keyPath).head? = some q → ∀ f ∈ rows, f.keyPath ≠ q) →
      row.key = root.key ∧ row.index = root.index) := by
  constructor
  · intro h
    constructor
    · rintro q hq f hf rfl
      obtain ⟨pick, hpick, hf⟩ := Picks.exists_of_mem row hf
      have hroot := h pick hpick
      rw [usageBy_root.1, usageBy_root.2, hq, Option.bind_some, hf] at hroot
      exact hroot
    · intro hnone
      have hroot := h _ (exists_picks rows row)
      rw [usageBy_root.1, usageBy_root.2] at hroot
      cases hhead : (dotPrefixes row.keyPath).head? with
      | none =>
        rw [hhead] at hroot
        exact hroot
      | some q =>
        have hmiss : (rows.find? fun f => f.keyPath = q) = none :=
          List.find?_eq_none.mpr fun f hf => by simpa using hnone q hhead f hf
        rw [hhead, Option.bind_some, hmiss] at hroot
        exact hroot
  · rintro ⟨hfound, hmissing⟩ pick hpick
    rw [usageBy_root.1, usageBy_root.2]
    cases hhead : (dotPrefixes row.keyPath).head? with
    | none => exact hmissing fun q hq => by rw [hhead] at hq; cases hq
    | some q =>
      have hq : q ∈ dotPrefixes row.keyPath := List.mem_of_mem_head? hhead
      rw [Option.bind_some]
      cases hpickq : pick q with
      | none =>
        refine hmissing fun q' hq' => ?_
        rw [hhead] at hq'
        cases hq'
        exact (hpick q hq).2 hpickq
      | some f =>
        obtain ⟨hf, hpath⟩ := (hpick q hq).1 f hpickq
        exact hfound q hhead f hf hpath

/-- Whatever is picked, the usage is right, exactly when the paths tell it. -/
theorem told_iff {ports : ActionId → List PortRow} (hrows : ports action = rows)
    (hline : Lineage rows (properAncestors rows row) row) :
    (∀ pick, Picks rows row.keyPath pick →
      usageBy pick action row = treeUsage ports (action, row)) ↔ Told rows row := by
  subst hrows
  have hsplit : ∀ pick, usageBy pick action row = treeUsage ports (action, row) ↔
      ((usageBy pick action row).portKey = (rootOf (ports action) row).key ∧
        (usageBy pick action row).index = (rootOf (ports action) row).index) ∧
      ((dotPrefixes row.keyPath).filterMap pick).flatMap modifiersOf =
        (properAncestors (ports action) row).flatMap modifiersOf := by
    intro pick
    rw [← usageBy_modifiers action]
    constructor
    · intro h
      rw [h]
      exact ⟨⟨rfl, rfl⟩, rfl⟩
    · rintro ⟨⟨hkey, hindex⟩, hmodifiers⟩
      show (⟨_, (usageBy pick action row).portKey, (usageBy pick action row).index, _,
        (usageBy pick action row).modifiers⟩ : PortUsage) = _
      rw [hkey, hindex, hmodifiers]
      rfl
  simp only [hsplit]
  constructor
  · intro h
    obtain ⟨hroot, hmissing⟩ := (root_iff (rootOf (ports action) row)).mp fun pick hpick =>
      (h pick hpick).1
    exact ⟨hroot, hmissing, fun hkey => (modifiers_iff hline hkey).mp fun pick hpick =>
      (h pick hpick).2, fun _ => nameless_iff.mp fun pick hpick => (h pick hpick).2⟩
  · intro h pick hpick
    refine ⟨(root_iff _).mpr ⟨h.root, h.rootless⟩ pick hpick, ?_⟩
    by_cases hkey : (rootOf (ports action) row).key = ""
    · exact nameless_iff.mpr (h.nameless hkey) pick hpick
    · exact (modifiers_iff hline hkey).mpr (h.modifiers hkey) pick hpick

end

/-! ## The answers of the database -/

section

variable {upper : String → String} {db : Database} {ports : ActionId → List PortRow}
  {organization : Organization} {identifier : String} {kind : PortKind} {action : ActionId}
  {row : PortRow}

theorem mem_portTable {port : ActionId × PortRow} :
    port ∈ portTable db ports ↔ (db.actions.get port.1).isSome = true ∧ port.2 ∈ ports port.1 := by
  rw [portTable, List.mem_flatMap]
  constructor
  · rintro ⟨⟨k, a⟩, ha, hport⟩
    obtain ⟨row, hrow, rfl⟩ := List.mem_map.mp hport
    obtain ⟨hget, _⟩ := Interleave.Table.mem_select.mp ha
    exact ⟨by rw [hget]; rfl, hrow⟩
  · rintro ⟨hthere, hrow⟩
    obtain ⟨a, ha⟩ := Option.isSome_iff_exists.mp hthere
    exact ⟨(port.1, a), Interleave.Table.mem_select.mpr ⟨ha, rfl⟩, List.mem_map.mpr ⟨port.2, hrow, rfl⟩⟩

/-- The rows that the second query asks for. -/
def ancestorsFor (db : Database) (ports : ActionId → List PortRow) (rows : List (ActionId × PortRow))
    (second : Answering) : List (ActionId × PortRow) :=
  if (rows.flatMap fun row => dotPrefixes row.2.keyPath).isEmpty then [] else
    second.arrange ((portTable db ports).filter fun port => (rows.map (·.1)).contains port.1 &&
      (rows.flatMap fun row => dotPrefixes row.2.keyPath).contains port.2.keyPath)

theorem mem_ancestorsFor {rows : List (ActionId × PortRow)} {second : Answering}
    {port : ActionId × PortRow} : port ∈ ancestorsFor db ports rows second ↔
      port ∈ portTable db ports ∧ port.1 ∈ rows.map (·.1) ∧
        port.2.keyPath ∈ rows.flatMap fun row => dotPrefixes row.2.keyPath := by
  unfold ancestorsFor
  split
  · rename_i hempty
    rw [List.isEmpty_iff] at hempty
    simp [hempty]
  · rw [(second.perm _).mem_iff, List.mem_filter, Bool.and_eq_true, List.contains_iff_mem,
      List.contains_iff_mem]

/-- The lookup picks a row at each path that has one. -/
theorem picks_of_answering {rows : List (ActionId × PortRow)} (second : Answering)
    (hrow : (action, row) ∈ rows) (htable : (action, row) ∈ portTable db ports) :
    Picks (ports action) row.keyPath (ancestorAt (ancestorsFor db ports rows second) action) := by
  intro q hq
  constructor
  · intro f hf
    obtain ⟨port, hport, rfl⟩ := Option.map_eq_some_iff.mp hf
    have hboth := List.find?_some hport
    rw [Bool.and_eq_true, decide_eq_true_iff, decide_eq_true_iff] at hboth
    have hmem := List.mem_reverse.mp (List.mem_of_find?_eq_some hport)
    obtain ⟨htable, _⟩ := mem_ancestorsFor.mp hmem
    have hof := (mem_portTable.mp htable).2
    rw [hboth.1] at hof
    exact ⟨hof, hboth.2⟩
  · intro hnone f hf hpath
    have hmem : (action, f) ∈ ancestorsFor db ports rows second := by
      refine mem_ancestorsFor.mpr ⟨mem_portTable.mpr ⟨(mem_portTable.mp htable).1, hf⟩, ?_, ?_⟩
      · exact List.mem_map.mpr ⟨(action, row), hrow, rfl⟩
      · exact List.mem_flatMap.mpr ⟨(action, row), hrow, by rw [hpath]; exact hq⟩
    rw [ancestorAt, Option.map_eq_none_iff, List.find?_eq_none] at hnone
    simpa [hpath] using hnone (action, f) (List.mem_reverse.mpr hmem)

/-- Where the chosen ones come last, the last one that is found is chosen. -/
theorem chosen_of_find? {α : Type} {p chosen : α → Bool} {l : List α} {x y : α} (hx : x ∈ l)
    (hchosen : chosen x = true) (hp : p x = true)
    (h : (l.filter (fun z => !chosen z) ++ l.filter chosen).reverse.find? p = some y) :
    chosen y = true := by
  rw [List.reverse_append, List.find?_append] at h
  cases hlast : (l.filter chosen).reverse.find? p with
  | none =>
    have hmem : x ∈ (l.filter chosen).reverse :=
      List.mem_reverse.mpr (List.mem_filter.mpr ⟨hx, hchosen⟩)
    exact absurd hp (List.find?_eq_none.mp hlast x hmem)
  | some z =>
    rw [hlast, Option.some_or] at h
    cases h
    exact (List.mem_filter.mp (List.mem_reverse.mp (List.mem_of_find?_eq_some hlast))).2

/-- In some order of the answers any row may be the last of its path. -/
theorem answering_of_picks (row : PortRow) {pick : String → Option PortRow}
    (hpick : Picks (ports action) row.keyPath pick) : ∃ second : Answering,
      ∀ rows, (action, row) ∈ rows → (action, row) ∈ portTable db ports →
        ∀ q ∈ dotPrefixes row.keyPath, ancestorAt (ancestorsFor db ports rows second) action q =
          pick q := by
  let chosen : ActionId × PortRow → Bool := fun port =>
    port.1 = action && pick port.2.keyPath = some port.2
  let second : Answering :=
    ⟨fun l => l.filter (fun port => !chosen port) ++ l.filter chosen, fun l =>
      List.perm_append_comm.trans (List.filter_append_perm chosen l)⟩
  refine ⟨second, fun rows hrow htable q hq => ?_⟩
  have hpicks := picks_of_answering second hrow htable q hq
  cases hfound : ancestorAt (ancestorsFor db ports rows second) action q with
  | none =>
    cases hpickq : pick q with
    | none => rfl
    | some f =>
      obtain ⟨hf, hpath⟩ := (hpick q hq).1 f hpickq
      exact absurd hpath (hpicks.2 hfound f hf)
  | some g =>
    obtain ⟨hg, hgpath⟩ := hpicks.1 g hfound
    cases hpickq : pick q with
    | none => exact absurd hgpath ((hpick q hq).2 hpickq g hg)
    | some f =>
      obtain ⟨hf, hpath⟩ := (hpick q hq).1 f hpickq
      obtain ⟨port, hport, rfl⟩ := Option.map_eq_some_iff.mp hfound
      have hmem : (action, f) ∈ ancestorsFor db ports rows second := by
        refine mem_ancestorsFor.mpr ⟨mem_portTable.mpr ⟨(mem_portTable.mp htable).1, hf⟩, ?_, ?_⟩
        · exact List.mem_map.mpr ⟨(action, row), hrow, rfl⟩
        · exact List.mem_flatMap.mpr ⟨(action, row), hrow, by rw [hpath]; exact hq⟩
      unfold ancestorsFor at hport hmem
      split at hmem
      · cases hmem
      · rename_i hne
        rw [if_neg hne] at hport
        have hlast : chosen port = true := chosen_of_find? (x := (action, f))
          ((second.perm _).mem_iff.mp hmem) (by simp [chosen, hpath, hpickq]) (by simp [hpath]) hport
        simp only [chosen, Bool.and_eq_true, decide_eq_true_iff] at hlast
        rw [← hlast.2, hgpath, hpickq]

variable (upper db ports organization identifier kind) in
/-- The ports with the identifier. -/
def usages : List (ActionId × PortRow) :=
  (portTable db ports).filter (isUsage upper db organization identifier kind)

theorem portUsages_eq (first second : Answering) :
    portUsages upper db ports organization identifier kind first second =
      (first.arrange (usages upper db ports organization identifier kind)).map fun port =>
        usageBy (ancestorAt (ancestorsFor db ports
          (first.arrange (usages upper db ports organization identifier kind)) second) port.1)
          port.1 port.2 := rfl

variable (upper db ports organization identifier kind) in
/-- The usages that are looked up are those of the trees, in whatever order the database answers. -/
def FollowsTrees : Prop :=
  ∀ first second, portUsages upper db ports organization identifier kind first second =
    (first.arrange (usages upper db ports organization identifier kind)).map (treeUsage ports)

variable (upper db organization identifier kind) in
/-- The lookup follows the trees exactly when the paths of the ports tell their usages. -/
theorem followsTrees_iff {compiler : List Descriptor → Except Error (Option String)}
    {forest : ActionId → List Port}
    (hrows : ∀ action, bulkCreatePorts compiler (forest action) = .ok (ports action)) :
    FollowsTrees upper db ports organization identifier kind ↔
    ∀ port ∈ usages upper db ports organization identifier kind, Told (ports port.1) port.2 := by
  have hline : ∀ port ∈ portTable db ports,
      Lineage (ports port.1) (properAncestors (ports port.1) port.2) port.2 := fun port hport =>
    lineage (hrows port.1) (mem_portTable.mp hport).2
  constructor
  · intro h port hport
    have htable := (List.mem_filter.mp hport).1
    refine (told_iff rfl (hline port htable)).mp fun pick hpick => ?_
    obtain ⟨second, hsecond⟩ := answering_of_picks port.2 hpick
    have hsame := h ⟨id, fun _ => .refl _⟩ second
    rw [portUsages_eq, List.map_inj_left] at hsame
    rw [← hsame port hport, usageBy, usageBy]
    congr 1
    exact List.map_congr_left fun q hq => (hsecond _ hport htable q hq).symm
  · intro h first second
    rw [portUsages_eq]
    refine List.map_congr_left fun port hport => ?_
    have hmem := (first.perm _).mem_iff.mp hport
    have htable := (List.mem_filter.mp hmem).1
    exact (told_iff rfl (hline port htable)).mpr (h port hmem) _
      (picks_of_answering second hport htable)

end

/-! ## Keys with and without dots -/

/-- One action that returns a list with this key, of masks. -/
def maskForest (key : String) (action : ActionId) : List Port :=
  if action = 1 then
    [{ key := key, kind := .list
       children := [{ key := "mask", kind := .struct, identifier := some "@mikro/mask" }] }]
  else []

def maskRows (key : String) (action : ActionId) : List PortRow :=
  if action = 1 then
    [⟨none, 0, key, key, .list, none, none, false, none⟩,
      ⟨some 0, 0, "mask", below key "mask", .struct, some "@mikro/mask", none, false, none⟩]
  else []

def lab : Organization := ⟨1, "lab"⟩

def masker : Database :=
  { actions := Table.empty.insert { key := "masker", hash := "h", organization := lab } }

theorem maskRows_created (key : String) (action : ActionId) :
    bulkCreatePorts (fun _ => .ok none) (maskForest key action) = .ok (maskRows key action) := by
  by_cases h : action = 1
  · subst h
    rfl
  · simp [maskForest, maskRows, h]
    rfl

theorem followsTrees_masks :
    FollowsTrees id masker (maskRows "masks") lab "@mikro/mask" .struct := by
  refine (followsTrees_iff id masker lab "@mikro/mask" .struct (maskRows_created "masks")).mpr ?_
  intro port hport
  have hrow : port = (1, ⟨some 0, 0, "mask", "masks.mask", .struct, some "@mikro/mask", none, false,
      none⟩) := List.mem_singleton.mp hport
  subst hrow
  have hprefixes : dotPrefixes "masks.mask" = ["masks"] := by decide
  refine ⟨fun q hq f hf hpath => ?_, fun hnone => ?_, fun _ => ⟨by decide, ?_⟩,
    fun hkey => absurd hkey (by decide)⟩
  · rw [hprefixes] at hq
    cases hq
    revert f
    decide
  · exact absurd rfl (hnone "masks" (by rw [hprefixes]; rfl) _ List.mem_cons_self)
  · rw [hprefixes]
    decide

theorem dotted_key_not_followed :
    ¬ FollowsTrees id masker (maskRows "seg.masks") lab "@mikro/mask" .struct := by
  intro h
  have hsame := h ⟨id, fun _ => .refl _⟩ ⟨id, fun _ => .refl _⟩
  revert hsame
  decide

end Structures
end Rekuest
