import Mathlib.Data.Finset.Card
import Mathlib.Data.Finset.Range
import Mathlib.Logic.Relation
import Rekuest.AutoResolve

/-!
# Rekuest.AutoResolve.Account

What a run of the resolver adds to the rows, and what holds of it.

* `Extra`: the rows, the calls and the turns that are added. `Adds`: the tables before and after.
* `Account`: every row is for an implementation not visited before, and belongs to a turn; every
  turn is of the resolution at hand or of a new one, and turns come one before the other.
* `Settled`: a run that returned has a row for every implementation that it visited.
* `Account.trans`: two runs one after the other.
-/

namespace Rekuest

open Interleave Managers Sql

namespace AutoResolve


/-! ## What is added -/

/-- The implementations with dependencies. -/
def dependents (db : Database) : Finset ImplementationId :=
  (Finset.range db.implementations.next).filter fun i => hasDependencies db i = true

theorem mem_dependents {db : Database} {i : ImplementationId} : i ∈ dependents db ↔
    i < db.implementations.next ∧ hasDependencies db i = true := by
  rw [dependents, Finset.mem_filter, Finset.mem_range]

structure Extra where
  resolutions : List Resolution := []
  resolved : List ResolvedDependency := []
  calls : List ImplementationId := []
  turns : List Turn := []

namespace Extra

def append (e e' : Extra) : Extra :=
  ⟨e.resolutions ++ e'.resolutions, e.resolved ++ e'.resolved, e.calls ++ e'.calls,
    e.turns ++ e'.turns⟩

instance : Append Extra := ⟨append⟩

variable {e e' : Extra}

@[simp] theorem append_resolutions : (e ++ e').resolutions = e.resolutions ++ e'.resolutions := rfl

@[simp] theorem append_resolved : (e ++ e').resolved = e.resolved ++ e'.resolved := rfl

@[simp] theorem append_calls : (e ++ e').calls = e.calls ++ e'.calls := rfl

@[simp] theorem append_turns : (e ++ e').turns = e.turns ++ e'.turns := rfl

end Extra

/-- The run added this, and no visited implementation was forgotten. -/
structure Adds (s s' : Resolving) (e : Extra) : Prop where
  resolutions : s'.resolutions = s.resolutions.insertAll e.resolutions
  resolved : s'.resolvedDependencies = s.resolvedDependencies.insertAll e.resolved
  calls : s'.calls = s.calls ++ e.calls
  turns : s'.turns = s.turns ++ e.turns
  visited : s.visited ⊆ s'.visited

section

variable {s t u : Resolving} {e e' : Extra} {k : Nat} {r : Resolution}

theorem Adds.trans (h : Adds s t e) (h' : Adds t u e') : Adds s u (e ++ e') where
  resolutions := by
    rw [h'.resolutions, h.resolutions]
    exact Table.insertAll_append.symm
  resolved := by
    rw [h'.resolved, h.resolved]
    exact Table.insertAll_append.symm
  calls := by rw [h'.calls, h.calls, Extra.append_calls, List.append_assoc]
  turns := by rw [h'.turns, h.turns, Extra.append_turns, List.append_assoc]
  visited := h.visited.trans h'.visited

theorem Adds.next_le (h : Adds s t e) : s.resolutions.next ≤ t.resolutions.next := by
  rw [h.resolutions, Table.next_insertAll]
  exact Nat.le_add_right _ _

/-- A resolution that is there stays. -/
theorem Adds.get (h : Adds s t e) (hk : s.resolutions.get k = some r) :
    t.resolutions.get k = some r := by
  rw [h.resolutions, Table.get_insertAll_of_lt (Table.lt_next hk)]
  exact hk

theorem Adds.get_of_lt (h : Adds s t e) (hk : k < s.resolutions.next) :
    t.resolutions.get k = s.resolutions.get k := by
  rw [h.resolutions, Table.get_insertAll_of_lt hk]

end

end AutoResolve

/-! ## Places -/

/-- The slot, in its resolution. -/
def Turn.address (t : Turn) : Nat × Nat × String := (t.resolution, t.dependency, t.key)

/-- The row was written for the slot. -/
def Turn.owns (t : Turn) (d : ResolvedDependency) : Bool :=
  d.resolution = t.resolution && d.dependency = some t.dependency && d.key = t.key

theorem Turn.owns_iff {t : Turn} {d : ResolvedDependency} : t.owns d = true ↔
    d.resolution = t.resolution ∧ d.dependency = some t.dependency ∧ d.key = t.key := by
  simp only [owns, Bool.and_eq_true, decide_eq_true_eq, and_assoc]

theorem Turn.address_eq {t t' : Turn} {d : ResolvedDependency} (h : t.owns d = true)
    (h' : t'.owns d = true) : t.address = t'.address := by
  obtain ⟨hr, hd, hk⟩ := owns_iff.mp h
  obtain ⟨hr', hd', hk'⟩ := owns_iff.mp h'
  rw [hd] at hd'
  rw [address, address, ← hr, ← hr', ← hk, ← hk', Option.some.inj hd']

namespace AutoResolve

section

variable (V : Server) (db : Database) (organization : Organization)

/-- The turn to a slot of a dependency, with what the selected agent offers for it. -/
structure IsTurn (id : Nat) (dependency : Dependency) (selection : Selection)
    (slot : String × List (Option SqlValue)) (t : Turn) : Prop where
  dependency_eq : t.dependency = id
  key : t.key = slot.1
  prefered : t.prefered = dependency.preferedInstances
  candidates : ∀ c, c ∈ t.candidates ↔
    ∃ i, db.implementations.get c = some i ∧ offers slot.2 selection.agent i = true

/-- The turn is to a slot of a dependency of the implementation. -/
def SlotOf (implementation : ImplementationId) (t : Turn) : Prop :=
  ∃ dependency selection slot, db.dependencies.get t.dependency = some dependency ∧
    dependency.implementation = implementation ∧
    selectAgent V db organization dependency = .ok selection ∧ slot ∈ selection.matchedIds ∧
    IsTurn db t.dependency dependency selection slot t

/-- Of the slots of a dependency, the one comes before the other. -/
def Precedes (dependency : Nat) (key key' : String) : Prop :=
  ∃ d selection, db.dependencies.get dependency = some d ∧
    selectAgent V db organization d = .ok selection ∧
    [key, key'].Sublist (selection.matchedIds.map Prod.fst)

/-- The one turn came before the other. -/
structure Before (t t' : Turn) : Prop where
  visited : t.visited ⊆ t'.visited
  ordered : t.resolution = t'.resolution → t.dependency = t'.dependency →
    Precedes V db organization t.dependency t.key t'.key

/-- An implementation with dependencies that may be chosen for a slot of the other. -/
def Needs (implementation c : ImplementationId) : Prop :=
  ∃ t, SlotOf V db organization implementation t ∧ c ∈ t.candidates ∧ hasDependencies db c = true

/-- Every slot of a dependency was turned to. -/
def AnswersOne (turns : List Turn) (resolution id : Nat) (dependency : Dependency) : Prop :=
  ∃ selection, selectAgent V db organization dependency = .ok selection ∧
    ∀ slot ∈ selection.matchedIds,
      ∃ t ∈ turns, t.resolution = resolution ∧ IsTurn db id dependency selection slot t

/-- Every slot of every dependency of the implementation was turned to. -/
def Answers (turns : List Turn) (implementation : ImplementationId) (resolution : Nat) : Prop :=
  ∀ id dependency, db.dependencies.get id = some dependency →
    dependency.implementation = implementation →
      AnswersOne V db organization turns resolution id dependency

/-- What came of a turn: rows for candidates not visited, none only where all were visited, and no
more than one beyond a count of zero. -/
structure Outcome (t : Turn) (rows : List ResolvedDependency) : Prop where
  among : ∀ d ∈ rows, d.implementation ∈ t.candidates
  free : ∀ d ∈ rows, d.implementation ∉ t.visited
  nil_iff : rows = [] ↔ ∀ c ∈ t.candidates, c ∈ t.visited
  bounded : rows ≠ [] → ∃ n, t.prefered = some n ∧ rows.length ≤ max n 1

/-- What a run adds while the slots `own` of an implementation are turned to in its resolution, and
rows are written for the slots `mine`. -/
structure Account (implementation : ImplementationId) (resolution : Nat)
    (own mine : Nat → String → Prop) (s s' : Resolving) (e : Extra) : Prop where
  adds : Adds s s' e
  calls : e.calls = e.resolutions.map Resolution.implementation
  callsNodup : e.calls.Nodup
  called : ∀ i ∈ e.calls, i ∉ s.visited ∧ i ∈ s'.visited ∧ i ∈ dependents db ∧
    Relation.TransGen (Needs V db organization) implementation i
  rowsNodup : (e.resolved.map ResolvedDependency.implementation).Nodup
  chosen : ∀ d ∈ e.resolved, d.implementation ∉ s.visited ∧ d.implementation ∈ s'.visited
  within : ∀ t ∈ e.turns, s.visited ⊆ t.visited ∧ t.visited ⊆ s'.visited
  ordered : e.turns.Pairwise (Before V db organization)
  placed : ∀ t ∈ e.turns,
    (t.resolution = resolution ∧ own t.dependency t.key ∧
      SlotOf V db organization implementation t) ∨
    (s.resolutions.next ≤ t.resolution ∧ ∃ r, s'.resolutions.get t.resolution = some r ∧
      r.implementation ∈ t.visited ∧ SlotOf V db organization r.implementation t)
  owned : ∀ d ∈ e.resolved, (∃ t ∈ e.turns, t.owns d = true) ∨
    (d.resolution = resolution ∧ ∃ n, d.dependency = some n ∧ mine n d.key)

/-- A run that returned: the turns came out, each new resolution has its slots turned to, and there
is a row for all that was visited. -/
structure Settled (s s' : Resolving) (e : Extra) : Prop where
  outcomes : ∀ t ∈ e.turns, Outcome t (e.resolved.filter t.owns)
  answered : ∀ k r, s.resolutions.next ≤ k → s'.resolutions.get k = some r →
    Answers V db organization e.turns r.implementation k
  recorded : ∀ i ∈ s'.visited, i ∉ s.visited → ∃ d ∈ e.resolved, d.implementation = i

end

section

variable {V : Server} {db : Database} {organization : Organization}
  {implementation : ImplementationId} {resolution : Nat} {own own' mine mine' : Nat → String → Prop}
  {s t u : Resolving} {e e' : Extra}

theorem SlotOf.lt_next {x : Turn} {c : ImplementationId}
    (h : SlotOf V db organization implementation x) (hc : c ∈ x.candidates) :
    c < db.implementations.next := by
  obtain ⟨_, _, _, _, _, _, _, hturn⟩ := h
  obtain ⟨i, hi, _⟩ := (hturn.candidates c).mp hc
  exact Table.lt_next hi

theorem AnswersOne.mono {turns turns' : List Turn} {id : Nat} {dependency : Dependency}
    (h : AnswersOne V db organization turns resolution id dependency)
    (hsub : ∀ t ∈ turns, t ∈ turns') :
    AnswersOne V db organization turns' resolution id dependency := by
  obtain ⟨selection, hselect, hslots⟩ := h
  refine ⟨selection, hselect, fun slot hslot => ?_⟩
  obtain ⟨t, ht, hturn⟩ := hslots slot hslot
  exact ⟨t, hsub t ht, hturn⟩

theorem Answers.mono {turns turns' : List Turn}
    (h : Answers V db organization turns implementation resolution)
    (hsub : ∀ t ∈ turns, t ∈ turns') :
    Answers V db organization turns' implementation resolution :=
  fun id dependency hget himpl => (h id dependency hget himpl).mono hsub

theorem Precedes.irrefl {n : Nat} {k : String} : ¬ Precedes V db organization n k k := by
  rintro ⟨_, selection, _, _, hsub⟩
  have hnodup : (selection.matchedIds.map Prod.fst).Nodup := Dict.NodupKeys.update .nil
  simpa using hnodup.sublist hsub

/-- A slot is not turned to twice. -/
theorem Before.address_ne {x x' : Turn} (h : Before V db organization x x') :
    x.address ≠ x'.address := by
  intro heq
  obtain ⟨hresolution, hrest⟩ := Prod.mk.inj heq
  obtain ⟨hdependency, hkey⟩ := Prod.mk.inj hrest
  have hprecedes := h.ordered hresolution hdependency
  rw [hkey] at hprecedes
  exact hprecedes.irrefl

theorem Account.refl : Account V db organization implementation resolution own mine s s {} where
  adds := ⟨rfl, rfl, (List.append_nil _).symm, (List.append_nil _).symm, fun _ h => h⟩
  calls := rfl
  callsNodup := .nil
  called := by simp
  rowsNodup := .nil
  chosen := by simp
  within := by simp
  ordered := .nil
  placed := by simp
  owned := by simp

theorem Account.mono (h : Account V db organization implementation resolution own mine s t e)
    (hown : ∀ n k, own n k → own' n k) (hmine : ∀ n k, mine n k → mine' n k) :
    Account V db organization implementation resolution own' mine' s t e where
  adds := h.adds
  calls := h.calls
  callsNodup := h.callsNodup
  called := h.called
  rowsNodup := h.rowsNodup
  chosen := h.chosen
  within := h.within
  ordered := h.ordered
  placed := by
    intro x hx
    rcases h.placed x hx with ⟨hr, ho, hslot⟩ | hnew
    · exact .inl ⟨hr, hown _ _ ho, hslot⟩
    · exact .inr hnew
  owned := by
    intro d hd
    rcases h.owned d hd with ht | ⟨hr, n, hn, hm⟩
    · exact .inl ht
    · exact .inr ⟨hr, n, hn, hmine _ _ hm⟩

/-- The turns of a run come before those of the next one. -/
theorem Account.before (h : Account V db organization implementation resolution own mine s t e)
    (h' : Account V db organization implementation resolution own' mine' t u e')
    (hlt : resolution < s.resolutions.next)
    (hown : ∀ n k k', own n k → own' n k' → Precedes V db organization n k k') {x x' : Turn}
    (hx : x ∈ e.turns) (hx' : x' ∈ e'.turns) : Before V db organization x x' := by
  refine ⟨(h.within x hx).2.trans (h'.within x' hx').1, fun hresolution hdependency => ?_⟩
  have hnext := h.adds.next_le
  rcases h.placed x hx with ⟨hr, ho, _⟩ | ⟨hge, r, hget, _⟩ <;>
    rcases h'.placed x' hx' with ⟨hr', ho', _⟩ | ⟨hge', _⟩
  · rw [hdependency] at ho ⊢
    exact hown _ _ _ ho ho'
  · omega
  · omega
  · have := Table.lt_next hget
    omega

/-- Two runs one after the other. -/
theorem Account.trans (h : Account V db organization implementation resolution own mine s t e)
    (h' : Account V db organization implementation resolution own' mine' t u e')
    (hlt : resolution < s.resolutions.next)
    (hown : ∀ n k k', own n k → own' n k' → Precedes V db organization n k k') :
    Account V db organization implementation resolution (fun n k => own n k ∨ own' n k)
      (fun n k => mine n k ∨ mine' n k) s u (e ++ e') where
  adds := h.adds.trans h'.adds
  calls := by rw [Extra.append_calls, h.calls, h'.calls, Extra.append_resolutions, List.map_append]
  callsNodup := by
    refine h.callsNodup.append h'.callsNodup fun i hi hi' => ?_
    exact (h'.called i hi').1 (h.called i hi).2.1
  called := by
    intro i hi
    rcases List.mem_append.mp hi with hi | hi
    · obtain ⟨hnot, hvisited, hrest⟩ := h.called i hi
      exact ⟨hnot, h'.adds.visited hvisited, hrest⟩
    · obtain ⟨hnot, hrest⟩ := h'.called i hi
      exact ⟨fun hin => hnot (h.adds.visited hin), hrest⟩
  rowsNodup := by
    rw [Extra.append_resolved, List.map_append]
    refine h.rowsNodup.append h'.rowsNodup fun i hi hi' => ?_
    obtain ⟨d, hd, rfl⟩ := List.mem_map.mp hi
    obtain ⟨d', hd', heq⟩ := List.mem_map.mp hi'
    exact (h'.chosen d' hd').1 (heq ▸ (h.chosen d hd).2)
  chosen := by
    intro d hd
    rcases List.mem_append.mp hd with hd | hd
    · exact ⟨(h.chosen d hd).1, h'.adds.visited (h.chosen d hd).2⟩
    · exact ⟨fun hin => (h'.chosen d hd).1 (h.adds.visited hin), (h'.chosen d hd).2⟩
  within := by
    intro x hx
    rcases List.mem_append.mp hx with hx | hx
    · exact ⟨(h.within x hx).1, (h.within x hx).2.trans h'.adds.visited⟩
    · exact ⟨h.adds.visited.trans (h'.within x hx).1, (h'.within x hx).2⟩
  ordered := List.pairwise_append.mpr ⟨h.ordered, h'.ordered, fun _ hx _ hx' =>
    h.before h' hlt hown hx hx'⟩
  placed := by
    intro x hx
    rcases List.mem_append.mp hx with hx | hx
    · rcases h.placed x hx with ⟨hr, ho, hslot⟩ | ⟨hge, r, hget, hrest⟩
      · exact .inl ⟨hr, .inl ho, hslot⟩
      · exact .inr ⟨hge, r, h'.adds.get hget, hrest⟩
    · rcases h'.placed x hx with ⟨hr, ho, hslot⟩ | ⟨hge, hnew⟩
      · exact .inl ⟨hr, .inr ho, hslot⟩
      · exact .inr ⟨h.adds.next_le.trans hge, hnew⟩
  owned := by
    intro d hd
    rcases List.mem_append.mp hd with hd | hd
    · rcases h.owned d hd with ⟨x, hx, ho⟩ | ⟨hr, n, hn, hm⟩
      · exact .inl ⟨x, List.mem_append_left _ hx, ho⟩
      · exact .inr ⟨hr, n, hn, .inl hm⟩
    · rcases h'.owned d hd with ⟨x, hx, ho⟩ | ⟨hr, n, hn, hm⟩
      · exact .inl ⟨x, List.mem_append_right _ hx, ho⟩
      · exact .inr ⟨hr, n, hn, .inr hm⟩

/-- A slot has no rows of a run in which it is not turned to. -/
theorem Account.not_owns (h : Account V db organization implementation resolution own mine s t e)
    {x : Turn} (haddress : ∀ x' ∈ e.turns, x.address ≠ x'.address)
    (hmine : x.resolution = resolution → ¬ mine x.dependency x.key) :
    e.resolved.filter x.owns = [] := by
  refine List.filter_eq_nil_iff.mpr fun d hd howns => ?_
  rcases h.owned d hd with ⟨x', hx', howns'⟩ | ⟨hr, n, hn, hm⟩
  · exact haddress x' hx' (Turn.address_eq howns howns')
  · obtain ⟨hr', hn', hk'⟩ := Turn.owns_iff.mp howns
    rw [hn] at hn'
    rw [Option.some.inj hn', hk'] at hm
    exact hmine (hr'.symm.trans hr) hm

theorem Settled.refl : Settled V db organization s s {} where
  outcomes := by simp
  answered := by
    intro k r hge hget
    have := Table.lt_next hget
    omega
  recorded := fun _ hin hnot => absurd hin hnot

/-- Two runs that returned, one after the other. -/
theorem Settled.trans (h : Settled V db organization s t e) (h' : Settled V db organization t u e')
    (ha : Account V db organization implementation resolution own mine s t e)
    (ha' : Account V db organization implementation resolution own' mine' t u e')
    (hlt : resolution < s.resolutions.next)
    (hown : ∀ n k k', own n k → own' n k' → Precedes V db organization n k k')
    (hmine : ∀ n k, own n k → ¬ mine' n k) (hmine' : ∀ n k, own' n k → ¬ mine n k) :
    Settled V db organization s u (e ++ e') where
  outcomes := by
    intro x hx
    rw [Extra.append_resolved, List.filter_append]
    have hnext := ha.adds.next_le
    rcases List.mem_append.mp hx with hx | hx
    · rw [ha'.not_owns (fun x' hx' => (ha.before ha' hlt hown hx hx').address_ne),
        List.append_nil]
      · exact h.outcomes x hx
      · intro hr
        rcases ha.placed x hx with ⟨_, ho, _⟩ | ⟨hge, _⟩
        · exact hmine _ _ ho
        · omega
    · rw [ha.not_owns fun x' hx' => (ha.before ha' hlt hown hx' hx).address_ne.symm,
        List.nil_append]
      · exact h'.outcomes x hx
      · intro hr
        rcases ha'.placed x hx with ⟨_, ho, _⟩ | ⟨hge, _⟩
        · exact hmine' _ _ ho
        · omega
  answered := by
    intro k r hge hget
    by_cases hk : k < t.resolutions.next
    · rw [ha'.adds.get_of_lt hk] at hget
      exact (h.answered k r hge hget).mono fun _ => List.mem_append_left _
    · exact (h'.answered k r (by omega) hget).mono fun _ => List.mem_append_right _
  recorded := by
    intro i hi hnot
    by_cases hmid : i ∈ t.visited
    · obtain ⟨d, hd, hi⟩ := h.recorded i hmid hnot
      exact ⟨d, List.mem_append_left _ hd, hi⟩
    · obtain ⟨d, hd, hi⟩ := h'.recorded i hi hmid
      exact ⟨d, List.mem_append_right _ hd, hi⟩

end
end AutoResolve
end Rekuest
