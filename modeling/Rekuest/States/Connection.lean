import Rekuest.States.TimeTravel

/-!
# Rekuest.States.Connection

The patches that `get_latest_state` answers besides the states, against the states that it answers
for other revisions.

* `applyTo`: a patch is applied to the state that it belongs to.
* `Connects`: the forward patches lead to the states of a later revision, and the backward patches
  are those of the session that led here.
* `Joined`: a condition on the rows that are read.
* `connects_iff_joined`: whatever `jsonpatch` does, that is when the patches connect the states.
-/

namespace Rekuest
namespace TimeTravel

open Fallible Logic Replay
open Interleave (Table)

/-! ## Patches on the states -/

/-- A patch on the value of the state that it belongs to, among the states that were read. -/
def applyTo (jsonpatch : Json → PatchDoc → Option Json) (cs : List (StateId × State))
    (states : Dict Json) (patch : Patch) : Dict Json :=
  match cs.find? fun c => c.1 = patch.state with
  | none => states
  | some c =>
    match states.get? c.2.interface with
    | none => states
    | some value => states.set c.2.interface (step jsonpatch value patch.doc)

/-- The patches of a state. -/
def patchesOf (state : StateId) (patches : List Patch) : List Patch :=
  patches.filter fun p => p.state = state

section

variable {jsonpatch : Json → PatchDoc → Option Json} {cs : List (StateId × State)}
  {states : Dict Json} {patch : Patch} {patches : List Patch} {c : StateId × State} {key : String}

/-- Only the state of the patch changes. -/
theorem get?_applyTo (hids : (cs.map Prod.fst).Nodup)
    (hunique : (cs.map fun c => c.2.interface).Nodup) (hc : c ∈ cs) :
    (applyTo jsonpatch cs states patch).get? c.2.interface =
      (states.get? c.2.interface).map fun value =>
        replay jsonpatch value ((patchesOf c.1 [patch]).map Patch.doc) := by
  unfold applyTo
  by_cases hstate : patch.state = c.1
  · have hfind : cs.find? (fun c => c.1 = patch.state) = some c := by
      cases hfound : cs.find? (fun c => c.1 = patch.state) with
      | none =>
        rw [List.find?_eq_none] at hfound
        exact absurd (decide_eq_true hstate.symm) (hfound c hc)
      | some c' =>
        have hkey := List.find?_some hfound
        rw [List.inj_on_of_nodup_map hids (List.mem_of_find?_eq_some hfound) hc
          ((of_decide_eq_true hkey).trans hstate)]
    have hmine : patchesOf c.1 [patch] = [patch] := by simp [patchesOf, hstate]
    rw [hfind, hmine]
    cases hget : states.get? c.2.interface with
    | none => simp [hget]
    | some value => simp [hget, Dict.get?_set]
  · have hmine : patchesOf c.1 [patch] = [] := by simp [patchesOf, hstate]
    rw [hmine]
    cases hfound : cs.find? (fun c => c.1 = patch.state) with
    | none => simp
    | some c' =>
      have hkey : c'.1 = patch.state := by simpa using List.find?_some hfound
      have hother : c.2.interface ≠ c'.2.interface := by
        intro hsame
        rw [List.inj_on_of_nodup_map hunique hc (List.mem_of_find?_eq_some hfound) hsame] at hstate
        exact hstate hkey.symm
      cases hget : states.get? c'.2.interface with
      | none => simp [hget]
      | some value => simp [hget, Dict.get?_set, hother]

/-- What is not the interface of a state that was read is left. -/
theorem get?_applyTo_other (hkey : key ∉ cs.map fun c => c.2.interface) :
    (applyTo jsonpatch cs states patch).get? key = states.get? key := by
  unfold applyTo
  cases hfound : cs.find? (fun c => c.1 = patch.state) with
  | none => rfl
  | some c =>
    have hne : key ≠ c.2.interface := fun h =>
      hkey (List.mem_map.mpr ⟨c, List.mem_of_find?_eq_some hfound, h.symm⟩)
    cases hget : states.get? c.2.interface with
    | none => simp [hget]
    | some value => simp [hget, Dict.get?_set, hne]

/-- Each state is changed by its own patches, in their order. -/
theorem get?_foldl_applyTo (hids : (cs.map Prod.fst).Nodup)
    (hunique : (cs.map fun c => c.2.interface).Nodup) (hc : c ∈ cs) :
    (patches.foldl (applyTo jsonpatch cs) states).get? c.2.interface =
      (states.get? c.2.interface).map fun value =>
        replay jsonpatch value ((patchesOf c.1 patches).map Patch.doc) := by
  induction patches generalizing states with
  | nil => simp [patchesOf]
  | cons patch patches ih =>
    have hsplit : patchesOf c.1 (patch :: patches) =
        patchesOf c.1 [patch] ++ patchesOf c.1 patches :=
      List.filter_append [patch] patches
    rw [List.foldl_cons, ih, get?_applyTo hids hunique hc, hsplit, List.map_append, Option.map_map]
    congr 1
    funext value
    exact replay_append.symm

theorem get?_foldl_applyTo_other (hkey : key ∉ cs.map fun c => c.2.interface) :
    (patches.foldl (applyTo jsonpatch cs) states).get? key = states.get? key := by
  induction patches generalizing states with
  | nil => rfl
  | cons patch patches ih => rw [List.foldl_cons, ih, get?_applyTo_other hkey]

end

/-! ## Connections -/

section

variable (db : Database) (agent : AgentId) (stateId : Option StateId) (sessionId : String)
  (revision : Int) (forward backward : Int)

/-- The last patches of the session up to the revision, in revision order. -/
def sessionPatches (session : SessionKey) : List Patch :=
  ((orderByDesc Patch.globalRev (db.patches.filter fun p =>
    p.agent = some agent && p.globalRev ≤ revision && p.session = some session)).take
      backward.toNat).reverse

/-- The forward patches lead from the states to those of the last one's revision, and the backward
patches are the last ones of the session. -/
def Connects (jsonpatch : Json → PatchDoc → Option Json) : Prop :=
  ∀ t, findSession db agent (some sessionId) = .ok t → ∀ latest,
    getLatestState db agent jsonpatch stateId (some sessionId) (some revision) forward backward =
      .ok latest →
    (∀ last, latest.forwardPatches.getLast? = some last → ∃ later,
      getLatestState db agent jsonpatch stateId (some sessionId) (some last.globalRev) 0 0 =
        .ok later ∧
      ∀ key, (latest.forwardPatches.foldl (applyTo jsonpatch (statesOf db agent stateId))
        latest.states).get? key = later.states.get? key) ∧
    latest.backwardPatches = sessionPatches db agent revision backward t.1

/-- The rows that are read of each state and its forward patches, one after the other, are some
patches that a later snapshot has in it, and then what is read for the later revision. No backward
patch is of another session. -/
def Joined (jsonpatch : Json → PatchDoc → Option Json) : Prop :=
  ∀ t, findSession db agent (some sessionId) = .ok t →
    (∀ c ∈ statesOf db agent stateId,
      (snapshotOf db agent t.1 (some revision) c.1).isSome = true) →
    (∀ last, (forwardPatches db agent revision forward).getLast? = some last →
      ∀ c ∈ statesOf db agent stateId, ∀ snapshot later,
        snapshotOf db agent t.1 (some revision) c.1 = some snapshot →
        snapshotOf db agent t.1 (some last.globalRev) c.1 = some later → ∃ absorbed,
          (patchesAfter db agent (some revision) c.1 snapshot ++
              patchesOf c.1 (forwardPatches db agent revision forward)).map Patch.doc =
            absorbed ++ (patchesAfter db agent (some last.globalRev) c.1 later).map Patch.doc ∧
          later.value = replay jsonpatch snapshot.value absorbed) ∧
    ∀ p ∈ backwardPatches db agent revision backward, p.session = some t.1

end

section

variable {db : Database} {agent : AgentId} {stateId : Option StateId} {sessionId : String}
  {revision : Int} {forward backward : Int} {jsonpatch : Json → PatchDoc → Option Json}
  {t : SessionKey × Session}

/-- The backward patches are the session's where none is of another session. -/
theorem backwardPatches_eq_iff {session : SessionKey} :
    backwardPatches db agent revision backward =
        sessionPatches db agent revision backward session ↔
      ∀ p ∈ backwardPatches db agent revision backward, p.session = some session := by
  have hfilter : (db.patches.filter fun p =>
      p.agent = some agent && p.globalRev ≤ revision && p.session = some session) =
      (db.patches.filter fun p => p.agent = some agent && p.globalRev ≤ revision).filter
        fun p => p.session = some session := by
    rw [List.filter_filter]
    congr 1
    funext p
    rw [Bool.and_comm]
  unfold backwardPatches sessionPatches
  rw [hfilter, List.reverse_inj, eq_comm,
    orderByDesc_filter (p := fun p : Patch => decide (p.session = some session)), take_filter_iff]
  simp only [List.mem_reverse, decide_eq_true_eq]

/-- What a call answers besides the states. -/
theorem getLatestState_patches {latest : LatestState}
    (h : getLatestState db agent jsonpatch stateId (some sessionId) (some revision) forward
      backward = .ok latest) :
    latest.forwardPatches = forwardPatches db agent revision forward ∧
      latest.backwardPatches = backwardPatches db agent revision backward := by
  obtain ⟨t, _, hloop⟩ := bind_ok_iff.mp h
  obtain ⟨read, _, hret⟩ := bind_ok_iff.mp hloop
  rw [← pure_ok_iff.mp hret]
  exact ⟨rfl, rfl⟩

/-- A call has nothing under another key than the interfaces of the states. -/
theorem getLatestState_other (hunique : db.StatesUnique) {globalRevision : Option Int}
    {latest : LatestState}
    (h : getLatestState db agent jsonpatch stateId (some sessionId) globalRevision forward
      backward = .ok latest) {key : String}
    (hkey : key ∉ (statesOf db agent stateId).map fun c => c.2.interface) :
    latest.states.get? key = none := by
  obtain ⟨t, _, hloop⟩ := bind_ok_iff.mp h
  obtain ⟨read, hread, hret⟩ := bind_ok_iff.mp hloop
  rw [← pure_ok_iff.mp hret]
  exact (foldlM_readInto (statesOf_interfaces_nodup hunique stateId) hread).2 key hkey

theorem getLatestState_reads {globalRevision : Option Int} {latest : LatestState}
    (h : getLatestState db agent jsonpatch stateId (some sessionId) globalRevision forward
      backward = .ok latest) (ht : findSession db agent (some sessionId) = .ok t)
    (hunique : db.StatesUnique) {c : StateId × State} (hc : c ∈ statesOf db agent stateId) :
    latest.states.get? c.2.interface = reading db agent t.1 globalRevision jsonpatch c.1 := by
  obtain ⟨t', ht', hread⟩ := getLatestState_ok hunique h
  rw [ht] at ht'
  cases ht'
  obtain ⟨value, hvalue, hget⟩ := hread c hc
  rw [hget, hvalue]

/-- A snapshot that is not too new for a revision is not for a later one. -/
theorem snapshotOf_isSome_mono {session : SessionKey} {state : StateId} {later : Int}
    (hle : revision ≤ later)
    (h : (snapshotOf db agent session (some revision) state).isSome = true) :
    (snapshotOf db agent session (some later) state).isSome = true := by
  unfold snapshotOf at h ⊢
  rw [isSome_head?_orderByDesc, Bool.not_eq_true', List.isEmpty_eq_false_iff] at h ⊢
  obtain ⟨s, hs⟩ := List.exists_mem_of_ne_nil _ h
  refine List.ne_nil_of_mem (a := s) ?_
  simp only [List.mem_filter, decide_eq_true_eq] at hs ⊢
  exact ⟨hs.1, Int.le_trans hs.2 hle⟩

/-- The revision of a forward patch is later. -/
theorem lt_of_mem_forwardPatches {p : Patch} (h : p ∈ forwardPatches db agent revision forward) :
    revision < p.globalRev := by
  have hp := List.mem_filter.mp (mem_orderBy.mp (List.mem_of_mem_take h))
  simp only [Bool.and_eq_true, decide_eq_true_eq] at hp
  exact hp.2.2

/-- What the patches are to connect, state by state. -/
def Continues (db : Database) (agent : AgentId) (session : SessionKey) (revision forward : Int)
    (jsonpatch : Json → PatchDoc → Option Json) (last : Patch) (state : StateId) : Prop :=
  ∀ snapshot later, snapshotOf db agent session (some revision) state = some snapshot →
    snapshotOf db agent session (some last.globalRev) state = some later →
      replay jsonpatch snapshot.value
          ((patchesAfter db agent (some revision) state snapshot ++
            patchesOf state (forwardPatches db agent revision forward)).map Patch.doc) =
        replay jsonpatch later.value
          ((patchesAfter db agent (some last.globalRev) state later).map Patch.doc)

theorem continues_iff {session : SessionKey} {last : Patch} {state : StateId}
    (hs : (snapshotOf db agent session (some revision) state).isSome = true)
    (hl : (snapshotOf db agent session (some last.globalRev) state).isSome = true) :
    (reading db agent session (some revision) jsonpatch state).map (fun value =>
        replay jsonpatch value
          ((patchesOf state (forwardPatches db agent revision forward)).map Patch.doc)) =
      reading db agent session (some last.globalRev) jsonpatch state ↔
    Continues db agent session revision forward jsonpatch last state := by
  obtain ⟨snapshot, hsnapshot⟩ := Option.isSome_iff_exists.mp hs
  obtain ⟨later, hlater⟩ := Option.isSome_iff_exists.mp hl
  simp only [reading, Continues, hsnapshot, hlater, Option.map_some, Option.some.injEq,
    List.map_append, replay_append]
  constructor
  · rintro h _ _ rfl rfl
    exact h
  · intro h
    exact h snapshot later rfl rfl

/-- Where a call answers, its patches connect the states if and only if they do so for each. -/
theorem connects_iff (hunique : db.StatesUnique)
    (ht : findSession db agent (some sessionId) = .ok t)
    (hsome : ∀ c ∈ statesOf db agent stateId,
      (snapshotOf db agent t.1 (some revision) c.1).isSome = true) :
    Connects db agent stateId sessionId revision forward backward jsonpatch ↔
      (∀ last, (forwardPatches db agent revision forward).getLast? = some last →
        ∀ c ∈ statesOf db agent stateId,
          Continues db agent t.1 revision forward jsonpatch last c.1) ∧
      ∀ p ∈ backwardPatches db agent revision backward, p.session = some t.1 := by
  have hids : ((statesOf db agent stateId).map Prod.fst).Nodup := Table.keys_select_nodup
  have hinterfaces : ((statesOf db agent stateId).map fun c => c.2.interface).Nodup :=
    statesOf_interfaces_nodup hunique stateId
  have hlater : ∀ last, (forwardPatches db agent revision forward).getLast? = some last →
      ∀ c ∈ statesOf db agent stateId,
        (snapshotOf db agent t.1 (some last.globalRev) c.1).isSome = true :=
    fun last hlast c hc => snapshotOf_isSome_mono
      (Int.le_of_lt (lt_of_mem_forwardPatches (List.mem_of_getLast? hlast))) (hsome c hc)
  constructor
  · intro h
    obtain ⟨latest, hlatest⟩ : ∃ latest, getLatestState db agent jsonpatch stateId
        (some sessionId) (some revision) forward backward = .ok latest :=
      getLatestState_total ht hsome
    obtain ⟨hforward, hbackward⟩ := getLatestState_patches hlatest
    obtain ⟨hconnects, hown⟩ := h t ht latest hlatest
    refine ⟨fun last hlast c hc => ?_, backwardPatches_eq_iff.mp (hbackward ▸ hown)⟩
    obtain ⟨later, hread, hsame⟩ := hconnects last (hforward ▸ hlast)
    have hkey := hsame c.2.interface
    rw [get?_foldl_applyTo hids hinterfaces hc, getLatestState_reads hlatest ht hunique hc,
      getLatestState_reads hread ht hunique hc, hforward] at hkey
    exact (continues_iff (hsome c hc) (hlater last hlast c hc)).mp hkey
  · rintro ⟨hcontinues, hown⟩ t' ht' latest hlatest
    rw [ht] at ht'
    cases ht'
    obtain ⟨hforward, hbackward⟩ := getLatestState_patches hlatest
    refine ⟨fun last hlast => ?_, hbackward.trans (backwardPatches_eq_iff.mpr hown)⟩
    rw [hforward] at hlast
    obtain ⟨later, hread⟩ : ∃ later, getLatestState db agent jsonpatch stateId
        (some sessionId) (some last.globalRev) 0 0 = .ok later :=
      getLatestState_total ht (hlater last hlast)
    refine ⟨later, hread, fun key => ?_⟩
    by_cases hkey : key ∈ (statesOf db agent stateId).map fun c => c.2.interface
    · obtain ⟨c, hc, rfl⟩ := List.mem_map.mp hkey
      rw [get?_foldl_applyTo hids hinterfaces hc, getLatestState_reads hlatest ht hunique hc,
        getLatestState_reads hread ht hunique hc, hforward]
      exact (continues_iff (hsome c hc) (hlater last hlast c hc)).mpr (hcontinues last hlast c hc)
    · rw [get?_foldl_applyTo_other hkey, getLatestState_other hunique hlatest hkey,
        getLatestState_other hunique hread hkey]

/-- A call that answers found the session, and a snapshot of every state. -/
theorem getLatestState_isSome {latest : LatestState} (hunique : db.StatesUnique)
    (ht : findSession db agent (some sessionId) = .ok t)
    (h : getLatestState db agent jsonpatch stateId (some sessionId) (some revision) forward
      backward = .ok latest) :
    ∀ c ∈ statesOf db agent stateId,
      (snapshotOf db agent t.1 (some revision) c.1).isSome = true := by
  intro c hc
  obtain ⟨t', ht', hread⟩ := getLatestState_ok hunique h
  rw [ht] at ht'
  cases ht'
  obtain ⟨value, hvalue, _⟩ := hread c hc
  rw [reading, Option.map_eq_some_iff] at hvalue
  obtain ⟨snapshot, hsnapshot, _⟩ := hvalue
  rw [hsnapshot]
  rfl

theorem connects_of_joined (hunique : db.StatesUnique)
    (h : Joined db agent stateId sessionId revision forward backward jsonpatch) :
    Connects db agent stateId sessionId revision forward backward jsonpatch := by
  intro t ht latest hlatest
  have hsome := getLatestState_isSome hunique ht hlatest
  obtain ⟨hjoined, hown⟩ := h t ht hsome
  refine (connects_iff hunique ht hsome).mpr ⟨fun last hlast c hc => ?_, hown⟩ t ht latest hlatest
  intro snapshot later hsnapshot hlater
  obtain ⟨absorbed, hrows, hvalue⟩ := hjoined last hlast c hc snapshot later hsnapshot hlater
  rw [hrows, replay_append, hvalue]

end

/-- **The patches connect the states** where the rows that are read join, and whatever `jsonpatch`
does only there. -/
theorem connects_iff_joined (db : Database) (agent : AgentId) (stateId : Option StateId)
    (sessionId : String) (revision forward backward : Int) (hunique : db.StatesUnique) :
    (∀ jsonpatch, Joined db agent stateId sessionId revision forward backward jsonpatch →
      Connects db agent stateId sessionId revision forward backward jsonpatch) ∧
    ((∀ jsonpatch, Connects db agent stateId sessionId revision forward backward jsonpatch) ↔
      ∀ jsonpatch, Joined db agent stateId sessionId revision forward backward jsonpatch) := by
  refine ⟨fun jsonpatch => connects_of_joined hunique, fun h jsonpatch t ht hsome => ?_,
    fun h jsonpatch => connects_of_joined hunique (h jsonpatch)⟩
  have hall := fun jsonpatch => (connects_iff hunique ht hsome).mp (h jsonpatch)
  refine ⟨fun last hlast c hc snapshot later hsnapshot hlater => ?_, (hall jsonpatch).2⟩
  obtain ⟨hvalue, hrows⟩ := (replay_ext_iff jsonRecorder).mp fun jsonpatch =>
    (hall jsonpatch).1 last hlast c hc snapshot later hsnapshot hlater
  exact ⟨[], hrows, hvalue.symm⟩

/-- Before the second session there are only patches of the first, which connect. -/
theorem first_session_connects :
    Connects { twoSessions with patches := twoSessions.patches.take 1 } 1 none "monday" 0 1 1
      replaceMember := by
  refine (connects_iff_joined _ 1 none "monday" 0 1 1 (stage_statesUnique rfl)).2.mpr ?_ replaceMember
  intro jsonpatch t ht _
  cases ht
  refine ⟨fun last hlast c hc snapshot later hsnapshot hlater => ?_, ?_⟩
  · cases hlast
    obtain rfl := List.mem_singleton.mp hc
    cases hsnapshot
    cases hlater
    exact ⟨[], rfl, rfl⟩
  · intro p hp
    cases hp

/-- Both sessions have a patch of revision 1. The forward patch leads the first session to 1, and
for that revision `get_latest_state` answers where the second one left. -/
theorem reused_revision_disconnects :
    (twoSessions.patches.Pairwise fun p q => p.session = q.session → p.globalRev ≠ q.globalRev) ∧
      ¬ Connects twoSessions 1 none "monday" 0 1 0 replaceMember := by
  refine ⟨by simp [twoSessions], fun h => ?_⟩
  obtain ⟨hconnects, _⟩ := h (1, ⟨1, "monday", 0⟩) rfl _ rfl
  obtain ⟨later, hlater, hsame⟩ := hconnects _ rfl
  have hread : getLatestState twoSessions 1 replaceMember none (some "monday") (some 1) 0 0 =
      .ok ⟨[("stage", position 5)], 1, [], [], "monday", 30⟩ := rfl
  cases hread.symm.trans hlater
  have hstage : some (position 1) = some (position 5) := hsame "stage"
  cases hstage

end TimeTravel
end Rekuest
