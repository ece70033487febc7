import Rekuest.AutoResolve.Account

/-!
# Rekuest.AutoResolve.Walk

The resolver, walked through once: every part of it ends, and gives an account of what it added.

* `pending`: the implementations with dependencies that are not visited. Each call visits one, so
  that fuel for all of them is enough.
* `Answered`, `Raised`: how a part ends. An error is that of a selection, of an unset count, or of a
  text that a column has no room for.
* `ends_choose`, `ends_fillSlot`, `ends_resolveSlot`, `ends_resolveDependency`,
  `ends_resolveAll`: the parts, each by the one before. `autoResolve_resolves`: the recursion.
-/

namespace Rekuest

open Interleave Managers Sql

namespace AutoResolve

open Fallible.Attempt

/-! ## Fuel -/

def pending (db : Database) (s : Resolving) : Nat := (dependents db \ s.visited).card

section

variable {db : Database} {s s' : Resolving} {i : ImplementationId}

variable (db) in
theorem pending_le (h : s.visited ⊆ s'.visited) : pending db s' ≤ pending db s :=
  Finset.card_le_card (Finset.sdiff_subset_sdiff (Finset.Subset.refl _) h)

/-- A visit to an implementation that is called next leaves one less. -/
theorem pending_visit (hi : i ∈ dependents db) (hfree : i ∉ s.visited) :
    pending db (s.visit i) < pending db s := by
  refine Finset.card_lt_card (Finset.ssubset_iff_subset_ne.mpr ⟨?_, fun heq => ?_⟩)
  · exact Finset.sdiff_subset_sdiff (Finset.Subset.refl _) (Finset.subset_insert i s.visited)
  · have hmem : i ∈ dependents db \ (s.visit i).visited := by
      rw [heq]
      exact Finset.mem_sdiff.mpr ⟨hi, hfree⟩
    exact (Finset.mem_sdiff.mp hmem).2 (Finset.mem_insert_self i s.visited)

end

/-! ## How a part ends -/

section

variable (V : Server) (db : Database) (organization : Organization)

variable (implementation : ImplementationId) (resolution : Nat) (own mine : Nat → String → Prop)

/-- The columns have no room for the key of a slot, or for the name of the resolution of one of its
candidates. -/
def Overlong (t : Turn) : Prop :=
  ¬ VarChar.Takes 2000 t.key ∨ ∃ i c, SlotOf V db organization i t ∧ c ∈ t.candidates ∧
    hasDependencies db c = true ∧ ¬ VarChar.Takes 200 (downStreamName db i t.dependency t.key)

/-- What an error was raised by: a count that is not set, a text that is too long, or the selection
for a dependency of an implementation that the resolver was called with. -/
def Blame (s' : Resolving) (err : Error) : Prop :=
  (err = .typeError ∧ ∃ t ∈ s'.turns, t.prefered = none) ∨
    (err = .dataError ∧ ∃ t ∈ s'.turns, Overlong V db organization t) ∨
    ∃ id dependency, db.dependencies.get id = some dependency ∧
      (dependency.implementation = implementation ∨ dependency.implementation ∈ s'.calls) ∧
      selectAgent V db organization dependency = .error err

/-- The part returned, with an account of what it added, of which something more holds. -/
def Answered (more : Resolving → Extra → Prop) (s : Resolving) (_ : Unit) (s' : Resolving) : Prop :=
  ∃ e, Account V db organization implementation resolution own mine s s' e ∧
    Settled V db organization s s' e ∧ more s' e

/-- The part raised, and what it added before is accounted for. -/
def Raised (s : Resolving) (err : Error) (s' : Resolving) : Prop :=
  ∃ e, Account V db organization implementation resolution own mine s s' e ∧
    Blame V db organization implementation s' err

/-- The recursion ends where this many implementations may still be pending. -/
def Resolves (recur : ImplementationId → Nat → Step Unit) (n : Nat) : Prop :=
  ∀ implementation resolution s, resolution < s.resolutions.next → s.visited ≠ ∅ →
    pending db s < n → Ends (recur implementation resolution) s
      (Answered V db organization implementation resolution (fun _ _ => True) (fun _ _ => False)
        (fun _ e => Answers V db organization e.turns implementation resolution) s)
      (Raised V db organization implementation resolution (fun _ _ => True) (fun _ _ => False) s)

end

section

variable {V : Server} {db : Database} {organization : Organization}
  {implementation c : ImplementationId} {own own' mine mine' : Nat → String → Prop}
  {s t u : Resolving} {e e' : Extra} {recur : ImplementationId → Nat → Step Unit} {n : Nat}

/-- The slots for which the rows of a turn are. -/
def Here (x : Turn) : Nat → String → Prop := fun n k => n = x.dependency ∧ k = x.key

/-- No slots. -/
abbrev Nowhere : Nat → String → Prop := fun _ _ => False

theorem Account.not_mine {x : Turn} (h : Account V db organization implementation x.resolution
    Nowhere Nowhere s t e) (hlt : x.resolution < s.resolutions.next) :
    e.resolved.filter x.owns = [] := by
  refine h.not_owns (fun x' hx' heq => ?_) fun _ hm => hm
  rcases h.placed x' hx' with ⟨_, ho, _⟩ | ⟨hge, _⟩
  · exact ho
  · have hresolution : x.resolution = x'.resolution := congrArg Prod.fst heq
    omega

/-! ## One candidate -/

theorem Account.visit {resolution : Nat} :
    Account V db organization implementation resolution own mine s (s.visit c) {} where
  adds := ⟨rfl, rfl, (List.append_nil _).symm, (List.append_nil _).symm,
    Finset.subset_insert c s.visited⟩
  calls := rfl
  callsNodup := .nil
  called := by simp
  rowsNodup := .nil
  chosen := by simp
  within := by simp
  ordered := .nil
  placed := by simp
  owned := by simp

/-- The account of a call, for the resolution from which the call was made. -/
theorem Account.down {x : Turn}
    (h : Account V db organization c s.resolutions.next (fun _ _ => True) Nowhere
      (((s.visit c).create ⟨c⟩).call c) t e) (hc : c ∈ dependents db) (hfree : c ∉ s.visited)
    (hneeds : Needs V db organization implementation c) :
    Account V db organization implementation x.resolution Nowhere Nowhere s t
      { e with resolutions := ⟨c⟩ :: e.resolutions, calls := c :: e.calls } where
  adds := by
    refine ⟨h.adds.resolutions, h.adds.resolved, ?_, h.adds.turns, ?_⟩
    · rw [h.adds.calls]
      exact List.append_assoc _ [c] _
    · exact (Finset.subset_insert c s.visited).trans h.adds.visited
  calls := by rw [h.calls, List.map_cons]
  callsNodup := by
    refine List.nodup_cons.mpr ⟨fun hin => ?_, h.callsNodup⟩
    exact (h.called c hin).1 (Finset.mem_insert_self c s.visited)
  called := by
    intro i hi
    rcases List.mem_cons.mp hi with rfl | hi
    · exact ⟨hfree, h.adds.visited (Finset.mem_insert_self i s.visited), hc, .single hneeds⟩
    · obtain ⟨hnot, hvisited, hdeps, hleads⟩ := h.called i hi
      exact ⟨fun hin => hnot (Finset.mem_insert_of_mem hin), hvisited, hdeps, .head hneeds hleads⟩
  rowsNodup := h.rowsNodup
  chosen := by
    intro d hd
    obtain ⟨hnot, hin⟩ := h.chosen d hd
    exact ⟨fun hin' => hnot (Finset.mem_insert_of_mem hin'), hin⟩
  within x' hx' := ⟨(Finset.subset_insert c s.visited).trans (h.within x' hx').1,
    (h.within x' hx').2⟩
  ordered := h.ordered
  placed := by
    intro x' hx'
    rcases h.placed x' hx' with ⟨hr, _, hslot⟩ | ⟨hge, r, hget, hrest⟩
    · refine .inr ⟨hr.ge, ⟨c⟩, ?_, (h.within x' hx').1 (Finset.mem_insert_self c s.visited), hslot⟩
      rw [hr]
      exact h.adds.get Table.get_insert_next
    · exact .inr ⟨(Nat.le_succ _).trans hge, r, hget, hrest⟩
  owned := by
    intro d hd
    rcases h.owned d hd with hx | ⟨_, _, _, hm⟩
    · exact .inl hx
    · exact hm.elim

/-- A call that returned has answered for its own new resolution as well. -/
theorem Settled.answered_down
    (h : Settled V db organization (((s.visit c).create ⟨c⟩).call c) t e)
    (hadds : Adds (((s.visit c).create ⟨c⟩).call c) t e)
    (hanswers : Answers V db organization e.turns c s.resolutions.next) {k : Nat} {r : Resolution}
    (hge : s.resolutions.next ≤ k) (hget : t.resolutions.get k = some r) :
    Answers V db organization e.turns r.implementation k := by
  rcases Nat.eq_or_lt_of_le hge with rfl | hlt
  · have hnew : t.resolutions.get s.resolutions.next = some ⟨c⟩ := hadds.get Table.get_insert_next
    rw [hnew] at hget
    cases hget
    exact hanswers
  · exact h.answered k r hlt hget

/-- A row for a candidate that nothing was written for yet. -/
theorem Account.row {x : Turn} {d : ResolvedDependency}
    (h : Account V db organization implementation x.resolution Nowhere Nowhere s t e)
    (hd : x.owns d = true) (hfree : d.implementation ∉ s.visited)
    (hvisited : d.implementation ∈ t.visited)
    (hnew : ∀ d' ∈ e.resolved, d'.implementation ≠ d.implementation) :
    Account V db organization implementation x.resolution Nowhere (Here x) s (t.resolve d)
      { e with resolved := e.resolved ++ [d] } where
  adds := by
    refine ⟨h.adds.resolutions, ?_, h.adds.calls, h.adds.turns, h.adds.visited⟩
    show t.resolvedDependencies.insert d = _
    rw [h.adds.resolved, Table.insertAll_append]
    rfl
  calls := h.calls
  callsNodup := h.callsNodup
  called := h.called
  rowsNodup := by
    rw [List.map_append]
    refine h.rowsNodup.append (List.nodup_singleton _) fun i hi hi' => ?_
    obtain ⟨d', hd', rfl⟩ := List.mem_map.mp hi
    exact hnew d' hd' (List.mem_singleton.mp hi')
  chosen := by
    intro d' hd'
    rcases List.mem_append.mp hd' with hd' | hd'
    · exact h.chosen d' hd'
    · rw [List.mem_singleton.mp hd']
      exact ⟨hfree, hvisited⟩
  within := h.within
  ordered := h.ordered
  placed := h.placed
  owned := by
    intro d' hd'
    rcases List.mem_append.mp hd' with hd' | hd'
    · rcases h.owned d' hd' with hx | ⟨_, _, _, hm⟩
      · exact .inl hx
      · exact hm.elim
    · rw [List.mem_singleton.mp hd']
      obtain ⟨hr, hn, hk⟩ := Turn.owns_iff.mp hd
      exact .inr ⟨hr, x.dependency, hn, rfl, hk⟩

/-- A part that lacked this row. -/
theorem Settled.row {x : Turn} {d : ResolvedDependency}
    (ha : Account V db organization implementation x.resolution Nowhere Nowhere s t e)
    (hlt : x.resolution < s.resolutions.next) (hd : x.owns d = true)
    (houtcomes : ∀ x' ∈ e.turns, Outcome x' (e.resolved.filter x'.owns))
    (hanswered : ∀ k r, s.resolutions.next ≤ k → t.resolutions.get k = some r →
      Answers V db organization e.turns r.implementation k)
    (hrecorded : ∀ i ∈ t.visited, i ∉ s.visited → i ≠ d.implementation →
      ∃ d' ∈ e.resolved, d'.implementation = i) :
    Settled V db organization s (t.resolve d) { e with resolved := e.resolved ++ [d] } where
  outcomes := by
    intro x' hx'
    have hnot : x'.owns d = false := by
      refine Bool.eq_false_iff.mpr fun howns => ?_
      have hr := (Turn.owns_iff.mp hd).1
      have hr' := (Turn.owns_iff.mp howns).1
      rcases ha.placed x' hx' with ⟨_, ho, _⟩ | ⟨hge, _⟩
      · exact ho
      · omega
    show Outcome x' ((e.resolved ++ [d]).filter x'.owns)
    rw [List.filter_append, List.filter_cons_of_neg (by simp [hnot]), List.filter_nil,
      List.append_nil]
    exact houtcomes x' hx'
  answered := hanswered
  recorded := by
    intro i hi hnot
    by_cases hid : i = d.implementation
    · exact ⟨d, List.mem_append_right _ List.mem_cons_self, hid.symm⟩
    · obtain ⟨d', hd', hi'⟩ := hrecorded i hi hnot hid
      exact ⟨d', List.mem_append_left _ hd', hi'⟩

/-- The row that is written for a candidate. -/
def rowOf (x : Turn) (c : ImplementationId) (downStream : Option Nat) : ResolvedDependency where
  resolution := x.resolution
  dependency := some x.dependency
  key := x.key
  implementation := c
  downStreamResolution := downStream

theorem owns_rowOf (x : Turn) (c : ImplementationId) (downStream : Option Nat) :
    x.owns (rowOf x c downStream) = true := Turn.owns_iff.mpr ⟨rfl, rfl, rfl⟩

theorem ends_createResolution {name : String} {Q : Nat → Resolving → Prop}
    {E : Error → Resolving → Prop}
    (h : VarChar.Takes 200 name → Q s.resolutions.next (s.create ⟨c⟩))
    (herror : ¬ VarChar.Takes 200 name → E .dataError s) :
    Ends (createResolution name c) s Q E := by
  unfold createResolution
  by_cases hname : VarChar.Takes 200 name
  · rw [if_pos hname]
    exact ends_bind (ends_look (ends_bind (ends_write (ends_pure (h hname)))))
  · rw [if_neg hname]
    exact ends_raise (herror hname)

theorem ends_createResolvedDependency {d : ResolvedDependency} {Q : Unit → Resolving → Prop}
    {E : Error → Resolving → Prop} (h : Q () (s.resolve d))
    (herror : ¬ VarChar.Takes 2000 d.key → E .dataError s) :
    Ends (createResolvedDependency d) s Q E := by
  unfold createResolvedDependency
  by_cases hkey : VarChar.Takes 2000 d.key
  · rw [if_pos hkey]
    exact ends_write h
  · rw [if_neg hkey]
    exact ends_raise (herror hkey)

/-- A candidate that has no dependencies. -/
theorem ends_choose_leaf {x : Turn} (hdeps : ¬ hasDependencies db c = true) (hfree : c ∉ s.visited)
    (hx : x ∈ s.turns) (hlt : x.resolution < s.resolutions.next) :
    Ends (choose db recur implementation x.resolution x.dependency x.key c) s
      (Answered V db organization implementation x.resolution Nowhere (Here x)
        (fun _ e => ∃ d, e.resolved.filter x.owns = [d] ∧ d.implementation = c) s)
      (Raised V db organization implementation x.resolution Nowhere (Here x) s) := by
  unfold choose
  rw [if_neg hdeps]
  refine ends_bind (ends_createResolvedDependency (ends_write ?_) fun hkey => ?_)
  · have howns := owns_rowOf x c none
    have ha : Account V db organization implementation x.resolution Nowhere Nowhere s (s.visit c)
        {} := .visit
    refine ⟨_, ha.row howns hfree (Finset.mem_insert_self c s.visited) (by simp),
      .row ha hlt howns (by simp) (fun k r hge hget => ?_) (fun i hi hnot hne => ?_),
      rowOf x c none, List.filter_cons_of_pos howns, rfl⟩
    · exact absurd (Table.lt_next hget) (Nat.not_lt.mpr hge)
    · rcases Finset.mem_insert.mp hi with hi | hi
      · exact absurd hi hne
      · exact absurd hi hnot
  · exact ⟨{}, .refl, .inr (.inl ⟨rfl, x, hx, .inl hkey⟩)⟩

/-- A candidate that has dependencies: a row for it, after those of its own call. -/
theorem ends_choose_call {x : Turn} (hrecur : Resolves V db organization recur n)
    (hslot : SlotOf V db organization implementation x) (hin : c ∈ x.candidates)
    (hmem : c ∈ dependents db) (hfree : c ∉ s.visited) (hx : x ∈ s.turns)
    (hlt : x.resolution < s.resolutions.next) (hpending : pending db s < n + 1) :
    Ends (choose db recur implementation x.resolution x.dependency x.key c) s
      (Answered V db organization implementation x.resolution Nowhere (Here x)
        (fun _ e => ∃ d, e.resolved.filter x.owns = [d] ∧ d.implementation = c) s)
      (Raised V db organization implementation x.resolution Nowhere (Here x) s) := by
  have hdeps := (mem_dependents.mp hmem).2
  have hneeds : Needs V db organization implementation c := ⟨x, hslot, hin, hdeps⟩
  unfold choose
  rw [if_pos hdeps]
  refine ends_bind (ends_write (ends_bind (ends_createResolution (fun _ => ends_bind
    (ends_write (ends_bind ?_))) fun hname => ?_)))
  · have hless := pending_visit hmem hfree
    have hcall := hrecur c s.resolutions.next (((s.visit c).create ⟨c⟩).call c)
      (Nat.lt_succ_self _) (Finset.insert_ne_empty c s.visited)
      (show pending db (s.visit c) < n by omega)
    refine hcall.mono ?_ ?_
    · rintro _ t ⟨e, ha, hsettled, hanswers⟩
      have ha' : Account V db organization implementation x.resolution Nowhere Nowhere s t
          { e with resolutions := ⟨c⟩ :: e.resolutions, calls := c :: e.calls } :=
        ha.down hmem hfree hneeds
      have howns := owns_rowOf x c (some s.resolutions.next)
      refine ends_createResolvedDependency ?_ fun hkey => ?_
      · refine ⟨_, ha'.row howns hfree (ha.adds.visited (Finset.mem_insert_self c s.visited)) ?_,
          .row ha' hlt howns hsettled.outcomes
            (fun _ _ => hsettled.answered_down ha.adds hanswers) (fun i hi hnot hne => ?_),
          rowOf x c (some s.resolutions.next), ?_, rfl⟩
        · intro d hd heq
          exact (ha.chosen d hd).1 (heq ▸ Finset.mem_insert_self c s.visited)
        · refine hsettled.recorded i hi fun hmem' => ?_
          rcases Finset.mem_insert.mp hmem' with heq | hold
          · exact hne heq
          · exact hnot hold
        · have hnone : e.resolved.filter x.owns = [] := ha'.not_mine hlt
          show (e.resolved ++ [rowOf x c (some s.resolutions.next)]).filter x.owns = _
          rw [List.filter_append, hnone, List.filter_cons_of_pos howns]
          rfl
      · refine ⟨_, ha'.mono (fun _ _ h => h) fun _ _ h => h.elim, .inr (.inl ⟨rfl, x, ?_, .inl hkey⟩)⟩
        rw [ha.adds.turns]
        exact List.mem_append_left _ hx
    · rintro err t ⟨e, ha, hblame⟩
      have ha' : Account V db organization implementation x.resolution Nowhere Nowhere s t
          { e with resolutions := ⟨c⟩ :: e.resolutions, calls := c :: e.calls } :=
        ha.down hmem hfree hneeds
      refine ⟨_, ha'.mono (fun _ _ h => h) fun _ _ h => h.elim, ?_⟩
      rcases hblame with htype | hlong | ⟨id, dependency, hget, himpl, herr⟩
      · exact .inl htype
      · exact .inr (.inl hlong)
      · refine .inr (.inr ⟨id, dependency, hget, .inr ?_, herr⟩)
        rcases himpl with rfl | hin
        · rw [ha'.adds.calls]
          exact List.mem_append_right _ List.mem_cons_self
        · exact hin
  · exact ⟨{}, .visit, .inr (.inl ⟨rfl, x, hx, .inr ⟨_, c, hslot, hin, hdeps, hname⟩⟩)⟩

/-- One candidate that was not visited. -/
theorem ends_choose {x : Turn} (hrecur : Resolves V db organization recur n)
    (hslot : SlotOf V db organization implementation x) (hin : c ∈ x.candidates)
    (hfree : c ∉ s.visited) (hx : x ∈ s.turns) (hlt : x.resolution < s.resolutions.next)
    (hpending : pending db s < n + 1) :
    Ends (choose db recur implementation x.resolution x.dependency x.key c) s
      (Answered V db organization implementation x.resolution Nowhere (Here x)
        (fun _ e => ∃ d, e.resolved.filter x.owns = [d] ∧ d.implementation = c) s)
      (Raised V db organization implementation x.resolution Nowhere (Here x) s) := by
  by_cases hdeps : hasDependencies db c = true
  · exact ends_choose_call hrecur hslot hin (mem_dependents.mpr ⟨hslot.lt_next hin, hdeps⟩) hfree hx
      hlt hpending
  · exact ends_choose_leaf hdeps hfree hx hlt

/-! ## One slot -/

/-- What came of the candidates that were left when so many had been chosen. -/
structure Filled (prefered : Option Nat) (count : Nat) (candidates : List ImplementationId)
    (visited : Finset ImplementationId) (rows : List ResolvedDependency) : Prop where
  among : ∀ d ∈ rows, d.implementation ∈ candidates
  free : ∀ d ∈ rows, d.implementation ∉ visited
  nil_iff : rows = [] ↔ ∀ c ∈ candidates, c ∈ visited
  bounded : rows ≠ [] → ∃ n, prefered = some n ∧ count + rows.length ≤ max n (count + 1)

/-- A candidate that was visited is passed over. -/
theorem Filled.skip {prefered : Option Nat} {count : Nat} {c : ImplementationId}
    {cs : List ImplementationId} {visited : Finset ImplementationId}
    {rows : List ResolvedDependency} (h : Filled prefered count cs visited rows)
    (hc : c ∈ visited) : Filled prefered count (c :: cs) visited rows where
  among d hd := List.mem_cons_of_mem _ (h.among d hd)
  free := h.free
  nil_iff := by rw [h.nil_iff, List.forall_mem_cons, and_iff_right hc]
  bounded := h.bounded

/-- A candidate that is chosen, the last one. -/
theorem Filled.last {n count : Nat} {c : ImplementationId} {cs : List ImplementationId}
    {visited : Finset ImplementationId} {d : ResolvedDependency} (hd : d.implementation = c)
    (hc : c ∉ visited) : Filled (some n) count (c :: cs) visited [d] where
  among d' hd' := by
    rw [List.mem_singleton.mp hd', hd]
    exact List.mem_cons_self
  free d' hd' := by
    rw [List.mem_singleton.mp hd', hd]
    exact hc
  nil_iff := iff_of_false (List.cons_ne_nil _ _) fun h => hc (h c List.mem_cons_self)
  bounded _ := ⟨n, rfl, Nat.le_max_right _ _⟩

/-- A candidate that is chosen, before others. -/
theorem Filled.next {n count : Nat} {c : ImplementationId} {cs : List ImplementationId}
    {visited visited' : Finset ImplementationId} {d : ResolvedDependency}
    {rows : List ResolvedDependency} (h : Filled (some n) (count + 1) cs visited' rows)
    (hsub : visited ⊆ visited') (hd : d.implementation = c) (hc : c ∉ visited)
    (hmore : ¬ count + 1 ≥ n) :
    Filled (some n) count (c :: cs) visited (d :: rows) where
  among d' hd' := by
    rcases List.mem_cons.mp hd' with rfl | hd'
    · rw [hd]
      exact List.mem_cons_self
    · exact List.mem_cons_of_mem _ (h.among d' hd')
  free d' hd' := by
    rcases List.mem_cons.mp hd' with rfl | hd'
    · rw [hd]
      exact hc
    · exact fun hin => h.free d' hd' (hsub hin)
  nil_iff := iff_of_false (List.cons_ne_nil _ _) fun h => hc (h c List.mem_cons_self)
  bounded _ := by
    refine ⟨n, rfl, ?_⟩
    rw [List.length_cons]
    by_cases hrows : rows = []
    · rw [hrows, List.length_nil]
      omega
    · obtain ⟨_, heq, hle⟩ := h.bounded hrows
      cases heq
      omega

variable (implementation) in
theorem ends_fillSlot {x : Turn} (hrecur : Resolves V db organization recur n)
    (hslot : SlotOf V db organization implementation x)
    (candidates : List ImplementationId) (count : Nat) (hcandidates : candidates ⊆ x.candidates)
    (hx : x ∈ s.turns) (hlt : x.resolution < s.resolutions.next) (hpending : pending db s < n + 1) :
    Ends (fillSlot db recur implementation x.resolution x.dependency x.prefered x.key count
        candidates) s
      (Answered V db organization implementation x.resolution Nowhere (Here x) (fun _ e =>
        Filled x.prefered count candidates s.visited (e.resolved.filter x.owns)) s)
      (Raised V db organization implementation x.resolution Nowhere (Here x) s) := by
  induction candidates generalizing count s with
  | nil =>
    refine ends_pure ⟨{}, .refl, .refl, ⟨by simp, by simp, by simp, ?_⟩⟩
    intro h
    exact absurd rfl h
  | cons c cs ih =>
    obtain ⟨hc, hcs⟩ := List.cons_subset.mp hcandidates
    unfold fillSlot
    refine ends_bind (ends_look ?_)
    by_cases hvisited : c ∈ s.visited
    · rw [if_pos hvisited]
      refine (ih count hcs hx hlt hpending).mono ?_ fun _ _ h => h
      rintro _ t ⟨e, ha, hsettled, hfilled⟩
      exact ⟨e, ha, hsettled, hfilled.skip hvisited⟩
    · rw [if_neg hvisited]
      refine ends_bind ((ends_choose hrecur hslot hc hvisited hx hlt hpending).mono ?_
        fun _ _ h => h)
      rintro _ t ⟨e, ha, hsettled, d, hrows, hd⟩
      have hx' : x ∈ t.turns := by
        rw [ha.adds.turns]
        exact List.mem_append_left _ hx
      cases hprefered : x.prefered with
      | none => exact ends_raise ⟨e, ha, .inl ⟨rfl, x, hx', hprefered⟩⟩
      | some m =>
        dsimp only
        by_cases hstop : count + 1 ≥ m
        · rw [if_pos hstop]
          refine ends_pure ⟨e, ha, hsettled, ?_⟩
          show Filled _ _ _ _ (e.resolved.filter x.owns)
          rw [hrows]
          exact .last hd hvisited
        · rw [if_neg hstop]
          have hnext := ha.adds.next_le
          have hfewer := pending_le db ha.adds.visited
          have hrest := ih (s := t) (count + 1) hcs hx' (by omega) (by omega)
          rw [hprefered] at hrest
          have htrans : ∀ {u : Resolving} {e' : Extra},
              Account V db organization implementation x.resolution Nowhere (Here x) t u e' →
              Account V db organization implementation x.resolution Nowhere (Here x) s u
                (e ++ e') := fun ha' =>
            (ha.trans ha' hlt fun _ _ _ h => h.elim).mono (fun _ _ h => h.elim id id)
              fun _ _ h => h.elim id id
          refine hrest.mono ?_ ?_
          · rintro _ u ⟨e', ha', hsettled', hfilled⟩
            refine ⟨e ++ e', htrans ha', hsettled.trans hsettled' ha ha' hlt
              (fun _ _ _ h => h.elim) (fun _ _ h => h.elim) (fun _ _ h => h.elim), ?_⟩
            show Filled _ _ _ _ ((e.resolved ++ e'.resolved).filter x.owns)
            rw [List.filter_append, hrows, List.singleton_append]
            exact hfilled.next ha.adds.visited hd hvisited hstop
          · rintro err u ⟨e', ha', hblame⟩
            exact ⟨e ++ e', htrans ha', hblame⟩

/-- The account of a slot, from before it was turned to. -/
theorem Account.turn {x : Turn} (h : Account V db organization implementation x.resolution Nowhere
    (Here x) (s.turn x) t e) (hslot : SlotOf V db organization implementation x)
    (hlt : x.resolution < s.resolutions.next) (hvisited : x.visited = s.visited) :
    Account V db organization implementation x.resolution (Here x) Nowhere s t
      { e with turns := x :: e.turns } where
  adds := by
    refine ⟨h.adds.resolutions, h.adds.resolved, h.adds.calls, ?_, h.adds.visited⟩
    rw [h.adds.turns]
    exact List.append_assoc _ [x] _
  calls := h.calls
  callsNodup := h.callsNodup
  called := h.called
  rowsNodup := h.rowsNodup
  chosen := h.chosen
  within := by
    intro x' hx'
    rcases List.mem_cons.mp hx' with rfl | hx'
    · rw [hvisited]
      exact ⟨Finset.Subset.refl _, h.adds.visited⟩
    · exact h.within x' hx'
  ordered := by
    refine List.pairwise_cons.mpr ⟨fun x' hx' => ⟨hvisited ▸ (h.within x' hx').1, ?_⟩, h.ordered⟩
    intro hresolution _
    rcases h.placed x' hx' with ⟨_, ho, _⟩ | ⟨hge, _⟩
    · exact ho.elim
    · have hnext : s.resolutions.next ≤ x'.resolution := hge
      omega
  placed := by
    intro x' hx'
    rcases List.mem_cons.mp hx' with rfl | hx'
    · exact .inl ⟨rfl, ⟨rfl, rfl⟩, hslot⟩
    · rcases h.placed x' hx' with ⟨_, ho, _⟩ | hnew
      · exact ho.elim
      · exact .inr hnew
  owned := by
    intro d hd
    rcases h.owned d hd with ⟨x', hx', ho⟩ | ⟨hr, _, hn, rfl, hk⟩
    · exact .inl ⟨x', List.mem_cons_of_mem _ hx', ho⟩
    · exact .inl ⟨x, List.mem_cons_self, Turn.owns_iff.mpr ⟨hr, hn, hk⟩⟩

theorem Settled.turn {x : Turn} (h : Settled V db organization (s.turn x) t e)
    (hout : Outcome x (e.resolved.filter x.owns)) :
    Settled V db organization s t { e with turns := x :: e.turns } where
  outcomes := by
    intro x' hx'
    rcases List.mem_cons.mp hx' with rfl | hx'
    · exact hout
    · exact h.outcomes x' hx'
  answered k r hge hget := (h.answered k r hge hget).mono fun _ => List.mem_cons_of_mem _
  recorded := h.recorded

/-- What was added does not depend on how many queries were asked before. -/
theorem Account.of_queries {q : Nat} {resolution : Nat}
    (h : Account V db organization implementation resolution own mine { s with queries := q } t e) :
    Account V db organization implementation resolution own mine s t e :=
  ⟨⟨h.adds.resolutions, h.adds.resolved, h.adds.calls, h.adds.turns, h.adds.visited⟩, h.calls,
    h.callsNodup, h.called, h.rowsNodup, h.chosen, h.within, h.ordered, h.placed, h.owned⟩

theorem Settled.of_queries {q : Nat}
    (h : Settled V db organization { s with queries := q } t e) : Settled V db organization s t e :=
  ⟨h.outcomes, h.answered, h.recorded⟩

theorem ends_rows {α : Type} {table : Table α} {p : Nat → α → Bool}
    {Q : List (Nat × α) → Resolving → Prop} {E : Error → Resolving → Prop}
    (h : Q (table.selectBy (V.rank s.queries) p) { s with queries := s.queries + 1 }) :
    Ends (rows V table p) s Q E :=
  ends_bind (ends_look (ends_bind (ends_write (ends_pure h))))

/-- One slot of a dependency of the implementation. -/
theorem ends_resolveSlot {resolution id : Nat} {dependency : Dependency} {selection : Selection}
    {slot : String × List (Option SqlValue)} (hrecur : Resolves V db organization recur n)
    (hget : db.dependencies.get id = some dependency)
    (himpl : dependency.implementation = implementation)
    (hselect : selectAgent V db organization dependency = .ok selection)
    (hslot : slot ∈ selection.matchedIds) (hlt : resolution < s.resolutions.next)
    (hpending : pending db s < n + 1) :
    Ends (resolveSlot V db recur implementation resolution (id, dependency) selection.agent slot) s
      (Answered V db organization implementation resolution (fun n k => n = id ∧ k = slot.1) Nowhere
        (fun _ e => ∃ t ∈ e.turns, t.resolution = resolution ∧
          IsTurn db id dependency selection slot t) s)
      (Raised V db organization implementation resolution (fun n k => n = id ∧ k = slot.1) Nowhere
        s) := by
  unfold resolveSlot
  refine ends_bind (ends_rows (ends_bind (ends_look (ends_bind (ends_write ?_)))))
  have hcandidates : ∀ c, c ∈ (db.implementations.selectBy (V.rank s.queries) fun _ i =>
      offers slot.2 selection.agent i).map Prod.fst ↔
        ∃ i, db.implementations.get c = some i ∧ offers slot.2 selection.agent i = true := by
    intro c
    rw [List.mem_map]
    constructor
    · rintro ⟨⟨_, i⟩, hi, rfl⟩
      exact ⟨i, Table.mem_selectBy.mp hi⟩
    · rintro ⟨i, hi⟩
      exact ⟨(c, i), Table.mem_selectBy.mpr hi, rfl⟩
  generalize (db.implementations.selectBy (V.rank s.queries) fun _ i =>
    offers slot.2 selection.agent i).map Prod.fst = candidates at hcandidates ⊢
  obtain ⟨x, hx⟩ : ∃ x : Turn, x = ⟨resolution, id, slot.1, candidates, s.visited,
    dependency.preferedInstances⟩ := ⟨_, rfl⟩
  have hturn : IsTurn db id dependency selection slot x := by
    subst hx
    exact ⟨rfl, rfl, rfl, hcandidates⟩
  have hslotOf : SlotOf V db organization implementation x := by
    subst hx
    exact ⟨dependency, selection, slot, hget, himpl, hselect, hslot, hturn⟩
  have hfill := ends_fillSlot implementation (x := x)
    (s := Resolving.turn x { s with queries := s.queries + 1 }) hrecur hslotOf candidates 0 (by
      subst hx
      exact fun _ hc => hc) (List.mem_append_right _ List.mem_cons_self) (by
      subst hx
      exact hlt) hpending
  subst hx
  refine hfill.mono ?_ ?_
  · rintro _ t ⟨e, ha, hsettled, hamong, hfree, hnil, hbounded⟩
    refine ⟨_, (ha.turn hslotOf hlt rfl).of_queries,
      (hsettled.turn ⟨hamong, hfree, hnil, ?_⟩).of_queries, _, List.mem_cons_self, rfl, hturn⟩
    intro hne
    obtain ⟨m, hm, hle⟩ := hbounded hne
    exact ⟨m, hm, by omega⟩
  · rintro err t ⟨e, ha, hblame⟩
    exact ⟨_, (ha.turn hslotOf hlt rfl).of_queries, hblame⟩

/-! ## Loops -/

section

variable {resolution : Nat} {more : Resolving → Extra → Prop}

/-- A part that returned, after one that did. -/
theorem Answered.after
    (h : Answered V db organization implementation resolution own' Nowhere more t () u)
    (ha : Account V db organization implementation resolution own Nowhere s t e)
    (hsettled : Settled V db organization s t e) (hlt : resolution < s.resolutions.next)
    (hown : ∀ n k k', own n k → own' n k' → Precedes V db organization n k k') :
    Answered V db organization implementation resolution (fun n k => own n k ∨ own' n k) Nowhere
      (fun u e'' => ∃ e', e'' = e ++ e' ∧ more u e') s () u := by
  obtain ⟨e', ha', hsettled', hmore⟩ := h
  exact ⟨e ++ e', (ha.trans ha' hlt hown).mono (fun _ _ h => h) fun _ _ h => h.elim id id,
    hsettled.trans hsettled' ha ha' hlt hown (fun _ _ _ h => h) fun _ _ _ h => h, e', rfl, hmore⟩

theorem Raised.after {err : Error}
    (h : Raised V db organization implementation resolution own' Nowhere t err u)
    (ha : Account V db organization implementation resolution own Nowhere s t e)
    (hlt : resolution < s.resolutions.next)
    (hown : ∀ n k k', own n k → own' n k' → Precedes V db organization n k k') :
    Raised V db organization implementation resolution (fun n k => own n k ∨ own' n k) Nowhere s
      err u := by
  obtain ⟨e', ha', hblame⟩ := h
  exact ⟨e ++ e', (ha.trans ha' hlt hown).mono (fun _ _ h => h) fun _ _ h => h.elim id id, hblame⟩

theorem Raised.mono {err : Error}
    (h : Raised V db organization implementation resolution own Nowhere s err t)
    (hown : ∀ n k, own n k → own' n k) :
    Raised V db organization implementation resolution own' Nowhere s err t := by
  obtain ⟨e, ha, hblame⟩ := h
  exact ⟨e, ha.mono hown fun _ _ h => h, hblame⟩

end

/-- One dependency of the implementation: the slots, one after the other. -/
theorem ends_resolveDependency {resolution id : Nat} {dependency : Dependency}
    (hrecur : Resolves V db organization recur n)
    (hget : db.dependencies.get id = some dependency)
    (himpl : dependency.implementation = implementation)
    (hlt : resolution < s.resolutions.next) (hpending : pending db s < n + 1) :
    Ends (resolveDependency V db organization recur implementation resolution (id, dependency)) s
      (Answered V db organization implementation resolution (fun n _ => n = id) Nowhere
        (fun _ e => AnswersOne V db organization e.turns resolution id dependency) s)
      (Raised V db organization implementation resolution (fun n _ => n = id) Nowhere s) := by
  refine ends_bind (ends_attempt (fun selection hselect => ?_) fun err herr => ?_)
  · have hloop := ends_forM
      (f := resolveSlot V db recur implementation resolution (id, dependency) selection.agent)
      (E := Raised V db organization implementation resolution (fun n _ => n = id) Nowhere s)
      (l := selection.matchedIds) (s := s)
      (fun rest t => ∃ done, selection.matchedIds = done ++ rest ∧
        Answered V db organization implementation resolution
          (fun n k => n = id ∧ k ∈ done.map Prod.fst) Nowhere
          (fun _ e => ∀ slot ∈ done, ∃ x ∈ e.turns, x.resolution = resolution ∧
            IsTurn db id dependency selection slot x) s () t) ?_ ?_
    · refine hloop.mono ?_ fun _ _ h => h
      rintro _ t ⟨done, hdone, e, ha, hsettled, hslots⟩
      rw [List.append_nil] at hdone
      exact ⟨e, ha.mono (fun _ _ h => h.1) fun _ _ h => h, hsettled, selection, hselect,
        hdone ▸ hslots⟩
    · rintro slot rest t ⟨done, hdone, e, ha, hsettled, hslots⟩
      have hown : ∀ n k k', (n = id ∧ k ∈ done.map Prod.fst) → (n = id ∧ k' = slot.1) →
          Precedes V db organization n k k' := by
        rintro _ k _ ⟨rfl, hk⟩ ⟨_, rfl⟩
        refine ⟨dependency, selection, hget, hselect, ?_⟩
        rw [hdone, List.map_append, List.map_cons]
        exact (List.singleton_sublist.mpr hk).append
          (List.singleton_sublist.mpr List.mem_cons_self)
      have hmem : slot ∈ selection.matchedIds := by
        rw [hdone]
        exact List.mem_append_right _ List.mem_cons_self
      have hnext := ha.adds.next_le
      have hfewer := pending_le db ha.adds.visited
      refine (ends_resolveSlot hrecur hget himpl hselect hmem (by omega) (by omega)).mono ?_ ?_
      · intro _ u hu
        obtain ⟨e'', ha'', hsettled'', e', rfl, x, hx, hturn⟩ := hu.after ha hsettled hlt hown
        refine ⟨done ++ [slot], by rw [hdone, List.append_assoc, List.singleton_append], e ++ e',
          ha''.mono ?_ fun _ _ h => h, hsettled'', ?_⟩
        · rintro n k (⟨hn, hk⟩ | ⟨hn, rfl⟩)
          · exact ⟨hn, by simp [hk]⟩
          · exact ⟨hn, by simp⟩
        · intro slot' hslot'
          rcases List.mem_append.mp hslot' with hslot' | hslot'
          · obtain ⟨x', hx', hturn'⟩ := hslots slot' hslot'
            exact ⟨x', List.mem_append_left _ hx', hturn'⟩
          · rw [List.mem_singleton.mp hslot']
            exact ⟨x, List.mem_append_right _ hx, hturn⟩
      · intro err u hu
        refine (hu.after ha hlt hown).mono ?_
        rintro n k (⟨hn, _⟩ | ⟨hn, _⟩) <;> exact hn
    · exact ⟨[], rfl, {}, .refl, .refl, by simp⟩
  · exact ⟨{}, .refl, .inr (.inr ⟨id, dependency, hget, .inl himpl, herr⟩)⟩

/-- Every dependency of the implementation. -/
theorem ends_resolveAll {resolution : Nat} (hrecur : Resolves V db organization recur n)
    (hlt : resolution < s.resolutions.next) (hpending : pending db s < n + 1) :
    Ends (resolveAll V db organization recur implementation resolution) s
      (Answered V db organization implementation resolution (fun _ _ => True) Nowhere
        (fun _ e => Answers V db organization e.turns implementation resolution) s)
      (Raised V db organization implementation resolution (fun _ _ => True) Nowhere s) := by
  refine ends_bind (ends_rows ?_)
  have hkeys : ((db.dependencies.selectBy (V.rank s.queries) fun _ d =>
      d.implementation = implementation).map Prod.fst).Nodup := Table.keys_selectBy_nodup
  have hrows : ∀ id dependency, (id, dependency) ∈ (db.dependencies.selectBy (V.rank s.queries)
      fun _ d => d.implementation = implementation) ↔
        db.dependencies.get id = some dependency ∧ dependency.implementation = implementation := by
    intro id dependency
    rw [Table.mem_selectBy, decide_eq_true_eq]
  generalize (db.dependencies.selectBy (V.rank s.queries) fun _ d =>
    d.implementation = implementation) = dependencies at hkeys hrows ⊢
  have hloop := ends_forM
    (f := resolveDependency V db organization recur implementation resolution)
    (E := Raised V db organization implementation resolution (fun _ _ => True) Nowhere s)
    (l := dependencies) (s := { s with queries := s.queries + 1 })
    (fun rest t => ∃ done, dependencies = done ++ rest ∧
      Answered V db organization implementation resolution (fun n _ => n ∈ done.map Prod.fst)
        Nowhere (fun _ e => ∀ d ∈ done, AnswersOne V db organization e.turns resolution d.1 d.2)
        s () t) ?_ ?_
  · refine hloop.mono ?_ fun _ _ h => h
    rintro _ t ⟨done, hdone, e, ha, hsettled, hone⟩
    rw [List.append_nil] at hdone
    refine ⟨e, ha.mono (fun _ _ _ => trivial) fun _ _ h => h, hsettled, ?_⟩
    intro id dependency hget himpl
    exact hone (id, dependency) (hdone ▸ (hrows id dependency).mpr ⟨hget, himpl⟩)
  · rintro ⟨id, dependency⟩ rest t ⟨done, hdone, e, ha, hsettled, hone⟩
    have hnew : id ∉ done.map Prod.fst := by
      intro hin
      rw [hdone, List.map_append, List.nodup_append] at hkeys
      exact hkeys.2.2 id hin id List.mem_cons_self rfl
    have hown : ∀ (n : Nat) (k k' : String), n ∈ done.map Prod.fst → n = id →
        Precedes V db organization n k k' := by
      rintro n _ _ hn rfl
      exact absurd hn hnew
    obtain ⟨hget, himpl⟩ := (hrows id dependency).mp (by
      rw [hdone]
      exact List.mem_append_right _ List.mem_cons_self)
    have hnext := ha.adds.next_le
    have hfewer := pending_le db ha.adds.visited
    refine (ends_resolveDependency hrecur hget himpl (by omega) (by omega)).mono ?_ ?_
    · intro _ u hu
      obtain ⟨e'', ha'', hsettled'', e', rfl, hanswers⟩ := hu.after ha hsettled hlt hown
      refine ⟨done ++ [(id, dependency)], by rw [hdone, List.append_assoc, List.singleton_append],
        e ++ e', ha''.mono ?_ fun _ _ h => h, hsettled'', ?_⟩
      · rintro n _ (hn | rfl)
        · simp [hn]
        · simp
      · intro d hd
        rcases List.mem_append.mp hd with hd | hd
        · exact (hone d hd).mono fun _ => List.mem_append_left _
        · rw [List.mem_singleton.mp hd]
          exact hanswers.mono fun _ => List.mem_append_right _
    · intro err u hu
      exact (hu.after ha hlt hown).mono fun _ _ _ => trivial
  · exact ⟨[], rfl, {}, Account.refl.of_queries, Settled.refl.of_queries, by simp⟩

end

/-! ## The recursion -/

section

variable (V : Server) (db : Database) (organization : Organization)

/-- Fuel for the implementations that are pending is enough. -/
theorem autoResolve_resolves (n : Nat) :
    Resolves V db organization (autoResolve V db organization n) n := by
  induction n with
  | zero =>
    intro implementation resolution s _ _ hpending
    exact absurd hpending (Nat.not_lt_zero _)
  | succ n ih =>
    intro implementation resolution s hlt hvisited hpending
    refine ends_bind (ends_look (ends_bind ?_))
    refine (ends_resolveAll ih hlt hpending).mono ?_ fun _ _ h => h
    intro _ t ht
    refine ends_write ?_
    rw [if_neg hvisited]
    exact ht

section

variable {V db organization} {recur recur' : ImplementationId → Nat → Step Unit}

theorem choose_extends (h : ∀ i r, Extends (recur i r) (recur' i r))
    (implementation : ImplementationId) (resolution dependency : Nat) (key : String)
    (c : ImplementationId) :
    Extends (choose db recur implementation resolution dependency key c)
      (choose db recur' implementation resolution dependency key c) := by
  unfold choose
  split
  · exact (Extends.refl _).bind fun _ => (Extends.refl _).bind fun _ => (Extends.refl _).bind
      fun _ => (h c _).bind fun _ => .refl _
  · exact .refl _

theorem fillSlot_extends (h : ∀ i r, Extends (recur i r) (recur' i r))
    (implementation : ImplementationId) (resolution dependency : Nat) (prefered : Option Nat)
    (key : String) (candidates : List ImplementationId) (count : Nat) :
    Extends (fillSlot db recur implementation resolution dependency prefered key count candidates)
      (fillSlot db recur' implementation resolution dependency prefered key count candidates) := by
  induction candidates generalizing count with
  | nil => exact .refl _
  | cons c cs ih =>
    unfold fillSlot
    refine (Extends.refl _).bind fun visited => ?_
    split
    · exact ih count
    · refine (choose_extends h implementation resolution dependency key c).bind fun _ => ?_
      cases prefered with
      | none => exact .refl _
      | some n =>
        dsimp only
        split
        · exact .refl _
        · exact ih (count + 1)

theorem resolveAll_extends (h : ∀ i r, Extends (recur i r) (recur' i r))
    (implementation : ImplementationId) (resolution : Nat) :
    Extends (resolveAll V db organization recur implementation resolution)
      (resolveAll V db organization recur' implementation resolution) := by
  refine (Extends.refl _).bind fun dependencies => Extends.forM (fun d => ?_) _
  refine (Extends.refl _).bind fun selection => Extends.forM (fun slot => ?_) _
  exact (Extends.refl _).bind fun _ => (Extends.refl _).bind fun _ => (Extends.refl _).bind
    fun _ => fillSlot_extends h _ _ _ _ _ _ _

end

/-- More fuel changes nothing. -/
theorem autoResolve_extends {m n : Nat} (hle : m ≤ n) (implementation : ImplementationId)
    (resolution : Nat) : Extends (autoResolve V db organization m implementation resolution)
      (autoResolve V db organization n implementation resolution) := by
  induction m generalizing n implementation resolution with
  | zero => exact .unfinished
  | succ m ih =>
    obtain ⟨n, rfl⟩ := Nat.exists_eq_add_one_of_ne_zero (Nat.ne_of_gt (Nat.lt_of_lt_of_le m.succ_pos hle))
    exact (Extends.refl _).bind fun _ =>
      (resolveAll_extends (fun i r => ih (Nat.le_of_succ_le_succ hle) i r) implementation
        resolution).bind fun _ => .refl _

end
end AutoResolve
end Rekuest
