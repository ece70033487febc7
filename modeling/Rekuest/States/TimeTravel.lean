import Rekuest.Fallible.Fold
import Rekuest.Logic

/-!
# Rekuest.States.TimeTravel

What the log of a session says of a state, against what `get_latest_state` reads out of it.

* `history`: the state as its session left it, by the session's own rows in revision order.
* `Reconstructs`: the values that `get_latest_state` answers for a session are its history.
* `SelectsOwn`: a condition on the log: the rows that are read are the session's own, in their order
  or in one that patches alike.
-/

namespace Rekuest
namespace TimeTravel

open Fallible Logic Replay
open Interleave (Table)

/-! ## The history of a session -/

variable (db : Database) (agent : AgentId) (session : SessionKey) (globalRevision : Option Int)

/-- The session's snapshot of a state with the highest revision that is not too high; of several
the one recorded last. -/
def lastSnapshot (state : StateId) : Option Snapshot :=
  (orderByDesc Snapshot.globalRev (db.snapshots.filter fun s =>
    s.state = state && s.agent = some agent && s.session = some session &&
      globalRevision.all fun revision => s.globalRev ≤ revision).reverse).head?

/-- The session's patches of a state after a snapshot, in revision order. -/
def laterPatches (state : StateId) (snapshot : Snapshot) : List Patch :=
  orderBy Patch.globalRev (db.patches.filter fun p =>
    p.state = state && p.agent = some agent && p.session = some session &&
      snapshot.globalRev < p.globalRev &&
      globalRevision.all fun revision => p.globalRev ≤ revision)

variable (jsonpatch : Json → PatchDoc → Option Json)

/-- The value of a state in a session. -/
def history (state : StateId) : Option Json :=
  (lastSnapshot db agent session globalRevision state).map fun snapshot =>
    replay jsonpatch snapshot.value
      ((laterPatches db agent session globalRevision state snapshot).map Patch.doc)

/-- The value of a state as `get_latest_state` reads it. -/
def reading (state : StateId) : Option Json :=
  (snapshotOf db agent session globalRevision state).map fun snapshot =>
    replay jsonpatch snapshot.value
      ((patchesAfter db agent globalRevision state snapshot).map Patch.doc)

/-! ## The loop over the states -/

variable {db agent session globalRevision jsonpatch}

theorem apply_value (r : Reading) (patch : Patch) :
    (r.apply jsonpatch patch).value = step jsonpatch r.value patch.doc := by
  unfold Reading.apply step
  cases jsonpatch r.value patch.doc <;> rfl

theorem foldl_apply_value (patches : List Patch) (r : Reading) :
    (patches.foldl (Reading.apply jsonpatch) r).value =
      replay jsonpatch r.value (patches.map Patch.doc) := by
  induction patches generalizing r with
  | nil => rfl
  | cons patch patches ih =>
    rw [List.foldl_cons, ih, apply_value]
    rfl

theorem readState_ok_iff {latest : Time} {state : StateId} {r : Reading} :
    readState db agent jsonpatch session globalRevision latest state = .ok r ↔
      ∃ snapshot, snapshotOf db agent session globalRevision state = some snapshot ∧
        (patchesAfter db agent globalRevision state snapshot).foldl (Reading.apply jsonpatch)
          ⟨snapshot.value, snapshot.globalRev, latest⟩ = r := by
  unfold readState
  cases snapshotOf db agent session globalRevision state with
  | none => simp
  | some snapshot => simp

/-- What is read of a state does not depend on the states read before it. -/
theorem reading_of_readState {latest : Time} {state : StateId} {r : Reading}
    (h : readState db agent jsonpatch session globalRevision latest state = .ok r) :
    reading db agent session globalRevision jsonpatch state = some r.value := by
  obtain ⟨snapshot, hs, rfl⟩ := readState_ok_iff.mp h
  rw [reading, hs, foldl_apply_value]
  rfl

theorem readInto_ok {latest latest' : LatestState} {c : StateId × State}
    (h : readInto db agent jsonpatch session globalRevision latest c = .ok latest') :
    ∃ value, reading db agent session globalRevision jsonpatch c.1 = some value ∧
      latest'.states = latest.states.set c.2.interface value := by
  obtain ⟨r, hr, hret⟩ := bind_ok_iff.mp h
  rw [← pure_ok_iff.mp hret]
  exact ⟨r.value, reading_of_readState hr, rfl⟩

theorem readInto_total {c : StateId × State}
    (h : (snapshotOf db agent session globalRevision c.1).isSome) (latest : LatestState) :
    ∃ latest', readInto db agent jsonpatch session globalRevision latest c = .ok latest' := by
  obtain ⟨snapshot, hs⟩ := Option.isSome_iff_exists.mp h
  exact ⟨_, bind_ok_iff.mpr ⟨_, readState_ok_iff.mpr ⟨snapshot, hs, rfl⟩, rfl⟩⟩

/-- The states read so far are in the answer, each under its interface. -/
theorem foldlM_readInto {cs : List (StateId × State)} {latest latest' : LatestState}
    (hunique : (cs.map fun c => c.2.interface).Nodup)
    (h : cs.foldlM (readInto db agent jsonpatch session globalRevision) latest = .ok latest') :
    (∀ c ∈ cs, ∃ value, reading db agent session globalRevision jsonpatch c.1 = some value ∧
      latest'.states.get? c.2.interface = some value) ∧
    ∀ key, (key ∉ cs.map fun c => c.2.interface) →
      latest'.states.get? key = latest.states.get? key := by
  induction cs generalizing latest with
  | nil =>
    rw [← foldlM_nil_iff.mp h]
    exact ⟨fun c hc => (by cases hc), fun _ _ => rfl⟩
  | cons c cs ih =>
    obtain ⟨next, hnext, hrest⟩ := foldlM_cons_iff.mp h
    obtain ⟨value, hvalue, hset⟩ := readInto_ok hnext
    obtain ⟨hc, hcs⟩ := List.nodup_cons.mp hunique
    obtain ⟨hin, hout⟩ := ih hcs hrest
    have hfirst : latest'.states.get? c.2.interface = some value := by
      rw [hout _ hc, hset, Dict.get?_set, if_pos rfl]
    constructor
    · intro c' hc'
      rcases List.mem_cons.mp hc' with rfl | hc'
      · exact ⟨value, hvalue, hfirst⟩
      · exact hin c' hc'
    · intro key hkey
      rw [List.map_cons, List.mem_cons, not_or] at hkey
      rw [hout key hkey.2, hset, Dict.get?_set, if_neg hkey.1]

theorem statesOf_interfaces_nodup (hunique : db.StatesUnique) (stateId : Option StateId) :
    ((statesOf db agent stateId).map fun c => c.2.interface).Nodup := by
  refine List.Nodup.map_on ?_ (List.Nodup.of_map _ Table.keys_select_nodup)
  intro c hc c' hc' hinterface
  obtain ⟨hget, hagent⟩ := Table.mem_select.mp hc
  obtain ⟨hget', hagent'⟩ := Table.mem_select.mp hc'
  simp only [Bool.and_eq_true, decide_eq_true_eq] at hagent hagent'
  have hkey : c.1 = c'.1 :=
    hunique _ _ _ _ hget hget' (hagent.1.trans hagent'.1.symm) hinterface
  rw [hkey, hget'] at hget
  exact Prod.ext hkey (Option.some.inj hget).symm

variable {stateId : Option StateId} {sessionId : Option String} {forward backward : Int}

theorem getLatestState_ok (hunique : db.StatesUnique) {latest : LatestState}
    (h : getLatestState db agent jsonpatch stateId sessionId globalRevision forward backward =
      .ok latest) :
    ∃ t, findSession db agent sessionId = .ok t ∧
      ∀ c ∈ statesOf db agent stateId, ∃ value,
        reading db agent t.1 globalRevision jsonpatch c.1 = some value ∧
        latest.states.get? c.2.interface = some value := by
  obtain ⟨t, ht, hloop⟩ := bind_ok_iff.mp h
  obtain ⟨read, hread, hret⟩ := bind_ok_iff.mp hloop
  rw [← pure_ok_iff.mp hret]
  exact ⟨t, ht, (foldlM_readInto (statesOf_interfaces_nodup hunique stateId) hread).1⟩

theorem getLatestState_total {t : SessionKey × Session}
    (ht : findSession db agent sessionId = .ok t)
    (h : ∀ c ∈ statesOf db agent stateId, (snapshotOf db agent t.1 globalRevision c.1).isSome) :
    ∃ latest, getLatestState db agent jsonpatch stateId sessionId globalRevision forward
      backward = .ok latest := by
  obtain ⟨read, hread⟩ := foldlM_total (f := readInto db agent jsonpatch t.1 globalRevision)
    (fun c hc latest => readInto_total (h c hc) latest)
    ⟨[], 0, [], [], t.2.sessionId, t.2.createdAt⟩
  exact ⟨_, bind_ok_iff.mpr ⟨t, ht, bind_ok_iff.mpr ⟨read, hread, rfl⟩⟩⟩

/-! ## When the answer is the history -/

variable (db agent jsonpatch stateId globalRevision forward backward)

/-- For the session `t`, every value that is read is the session's history of its state. -/
def Reconstructs (t : SessionKey × Session) : Prop :=
  ∃ latest, getLatestState db agent jsonpatch stateId (some t.2.sessionId) globalRevision forward
      backward = .ok latest ∧
    ∀ c ∈ statesOf db agent stateId,
      latest.states.get? c.2.interface = history db agent t.1 globalRevision jsonpatch c.1

/-- For each state, the patches that are younger than the snapshot that is picked are, but for the
order of patches that commute, some that lead to the session's last snapshot and then the session's
later patches by their revision. -/
def SelectsOwn (t : SessionKey × Session) : Prop :=
  ∃ t', findSession db agent (some t.2.sessionId) = .ok t' ∧
    ∀ c ∈ statesOf db agent stateId, ∃ picked last bridge,
      snapshotOf db agent t'.1 globalRevision c.1 = some picked ∧
      lastSnapshot db agent t.1 globalRevision c.1 = some last ∧
      replay jsonpatch picked.value bridge = last.value ∧
      Exchanged jsonpatch ((patchesAfter db agent globalRevision c.1 picked).map Patch.doc)
        (bridge ++ (laterPatches db agent t.1 globalRevision c.1 last).map Patch.doc)

variable {db agent jsonpatch stateId globalRevision forward backward}

/-- Nothing of a patch is forgotten: the operations pile up. -/
noncomputable def jsonRecorder : Recorder Json PatchDoc where
  record v doc := .arr [v, .str doc.op, .str doc.path, .arr doc.value.toList]
  size := sizeOf
  record_inj h := by
    rename_i v v' doc doc'
    obtain ⟨op, path, value⟩ := doc
    obtain ⟨op', path', value'⟩ := doc'
    simp only [Json.arr.injEq, Json.str.injEq, List.cons.injEq, and_true] at h
    obtain ⟨hv, hop, hpath, hvalue⟩ := h
    have : value = value' := by
      cases value <;> cases value' <;> simp_all
    exact ⟨hv, by rw [hop, hpath, this]⟩
  size_lt := by
    intro v doc
    simp only [Json.arr.sizeOf_spec, List.cons.sizeOf_spec]
    omega

theorem reconstructs_of_selectsOwn {t : SessionKey × Session} (hunique : db.StatesUnique)
    (h : SelectsOwn db agent globalRevision jsonpatch stateId t) :
    Reconstructs db agent globalRevision jsonpatch stateId forward backward t := by
  obtain ⟨t', ht', hown⟩ := h
  have hsome : ∀ c ∈ statesOf db agent stateId,
      (snapshotOf db agent t'.1 globalRevision c.1).isSome := by
    intro c hc
    obtain ⟨picked, _, _, hpicked, _⟩ := hown c hc
    exact Option.isSome_iff_exists.mpr ⟨picked, hpicked⟩
  obtain ⟨latest, hlatest⟩ : ∃ latest, getLatestState db agent jsonpatch stateId
      (some t.2.sessionId) globalRevision forward backward = .ok latest :=
    getLatestState_total ht' hsome
  refine ⟨latest, hlatest, fun c hc => ?_⟩
  obtain ⟨t'', ht'', hread⟩ := getLatestState_ok hunique hlatest
  rw [ht'] at ht''
  cases ht''
  obtain ⟨value, hvalue, hget⟩ := hread c hc
  obtain ⟨picked, last, bridge, hpicked, hlast, hbridge, hdocs⟩ := hown c hc
  rw [hget, ← hvalue, reading, history, hpicked, hlast, Option.map_some, Option.map_some,
    hdocs.replay_eq, replay_append, hbridge]

/-- **The values are the session's history** where the rows that are read are the session's own, and
whatever `jsonpatch` does only there. -/
theorem reconstructs_iff {t : SessionKey × Session} (hunique : db.StatesUnique)
    (hsome : ∀ c ∈ statesOf db agent stateId,
      (lastSnapshot db agent t.1 globalRevision c.1).isSome) :
    (∀ jsonpatch, SelectsOwn db agent globalRevision jsonpatch stateId t →
      Reconstructs db agent globalRevision jsonpatch stateId forward backward t) ∧
    ((∀ jsonpatch, Reconstructs db agent globalRevision jsonpatch stateId forward backward t) ↔
      ∀ jsonpatch, SelectsOwn db agent globalRevision jsonpatch stateId t) := by
  refine ⟨fun jsonpatch => reconstructs_of_selectsOwn hunique, ?_, fun h jsonpatch =>
    reconstructs_of_selectsOwn hunique (h jsonpatch)⟩
  · intro h jsonpatch
    obtain ⟨_, hlatest, _⟩ := h fun _ _ => none
    obtain ⟨t', ht', _⟩ := getLatestState_ok hunique hlatest
    refine ⟨t', ht', fun c hc => ?_⟩
    have hsame : ∀ jsonpatch, reading db agent t'.1 globalRevision jsonpatch c.1 =
        history db agent t.1 globalRevision jsonpatch c.1 := by
      intro jsonpatch
      obtain ⟨latest, hlatest, hown⟩ := h jsonpatch
      obtain ⟨t'', ht'', hread⟩ := getLatestState_ok hunique hlatest
      rw [ht'] at ht''
      cases ht''
      obtain ⟨value, hvalue, hget⟩ := hread c hc
      rw [hvalue, ← hget, hown c hc]
    obtain ⟨last, hlast⟩ := Option.isSome_iff_exists.mp (hsome c hc)
    cases hpicked : snapshotOf db agent t'.1 globalRevision c.1 with
    | none =>
      have hnone := hsame fun _ _ => none
      simp [reading, history, hpicked, hlast] at hnone
    | some picked =>
      have hreplay : ∀ jsonpatch,
          replay jsonpatch picked.value
              ((patchesAfter db agent globalRevision c.1 picked).map Patch.doc) =
            replay jsonpatch last.value
              ((laterPatches db agent t.1 globalRevision c.1 last).map Patch.doc) := by
        intro jsonpatch
        have hs := hsame jsonpatch
        rw [reading, history, hpicked, hlast] at hs
        exact Option.some.inj hs
      obtain ⟨hvalue, hdocs⟩ := (replay_ext_iff jsonRecorder).mp hreplay
      refine ⟨picked, last, [], rfl, hlast, hvalue, ?_⟩
      rw [hdocs]
      exact .refl _

/-! ## Two sessions -/

/-- `jsonpatch` on the replacement of a member of an object. -/
def replaceMember : Json → PatchDoc → Option Json
  | .obj members, ⟨"replace", path, some value⟩ =>
    let key := String.ofList (path.toList.drop 1)
    if Dict.has members key then some (.obj (Dict.set members key value)) else none
  | _, _ => none

def position (x : Int) : Json := .obj [("x", .num x)]

def stage : State := { interface := "stage", agent := 1 }

/-- The agent ran twice. In its second session it moved the stage to 5. -/
def twoSessions : Database where
  states := Table.empty.insert stage
  sessions := (Table.empty.insert ⟨1, "monday", 0⟩).insert ⟨1, "tuesday", 20⟩
  snapshots :=
    [⟨1, some 1, some 1, position 0, 1, 0⟩, ⟨1, some 1, some 2, position 0, 21, 0⟩]
  patches :=
    [⟨1, some 1, some 1, "replace", "/x", .num 1, 10, 1, none⟩,
      ⟨1, some 1, some 2, "replace", "/x", .num 5, 30, 1, none⟩]

theorem stage_statesUnique {db : Database} (h : db.states = Table.empty.insert stage) :
    db.StatesUnique := by
  intro k k' s s' hk hk' _ _
  rw [h] at hk hk'
  rcases Table.get_insert_cases hk with ⟨rfl, _⟩ | ⟨_, hk⟩
  · rcases Table.get_insert_cases hk' with ⟨rfl, _⟩ | ⟨_, hk'⟩
    · rfl
    · cases hk'
  · cases hk

/-- Asked for the first session, `get_latest_state` answers where the second one left. -/
theorem other_session_leaks :
    (getLatestState twoSessions 1 replaceMember (some 1) (some "monday") none 0 0).map
        (fun latest => latest.states.get? "stage") = .ok (some (position 5)) ∧
      history twoSessions 1 1 none replaceMember 1 = some (position 1) ∧
      ¬Reconstructs twoSessions 1 none replaceMember (some 1) 0 0 (1, ⟨1, "monday", 0⟩) := by
  have hread : (getLatestState twoSessions 1 replaceMember (some 1) (some "monday") none 0 0).map
      (fun latest => latest.states.get? "stage") = .ok (some (position 5)) := rfl
  have hhistory : history twoSessions 1 1 none replaceMember 1 = some (position 1) := rfl
  refine ⟨hread, hhistory, ?_⟩
  intro h
  obtain ⟨latest, hlatest, hown⟩ := h
  have hstage := hown (1, stage) (List.mem_singleton.mpr rfl)
  rw [hlatest] at hread
  have hfive : latest.states.get? "stage" = some (position 5) := Except.ok.inj hread
  rw [show latest.states.get? "stage" = some (position 1) from hstage] at hfive
  cases hfive

theorem step_replaceMember {path key : String} (hkey : String.ofList (path.toList.drop 1) = key)
    (members : Dict Json) (value : Json) :
    step replaceMember (.obj members) ⟨"replace", path, some value⟩ =
      .obj (if members.has key then members.set key value else members) := by
  subst hkey
  simp only [step, replaceMember]
  by_cases hin : members.has (String.ofList (path.toList.drop 1))
  · rw [if_pos hin, if_pos hin]
    rfl
  · rw [if_neg hin, if_neg hin]
    rfl

/-- Replacements of two members change places. -/
theorem replaceMember_comm {path path' key key' : String} (value value' : Json)
    (hkey : String.ofList (path.toList.drop 1) = key)
    (hkey' : String.ofList (path'.toList.drop 1) = key') (hne : key ≠ key') (v : Json) :
    step replaceMember (step replaceMember v ⟨"replace", path, some value⟩)
        ⟨"replace", path', some value'⟩ =
      step replaceMember (step replaceMember v ⟨"replace", path', some value'⟩)
        ⟨"replace", path, some value⟩ := by
  cases v with
  | obj members =>
    have hhas : ∀ {k k' : String} (x : Json), k ≠ k' →
        Dict.has (Dict.set members k x) k' = Dict.has members k' := by
      intro k k' x hk
      rw [Dict.has, Dict.get?_set, if_neg hk.symm]
      rfl
    simp only [step_replaceMember hkey, step_replaceMember hkey']
    by_cases hin : Dict.has members key
    · by_cases hin' : Dict.has members key'
      · simp only [hin, hin', hhas _ hne, hhas _ hne.symm, if_true]
        rw [Dict.set_comm hne hin hin']
      · simp [hin, hin', hhas _ hne]
    · by_cases hin' : Dict.has members key'
      · simp [hin, hin', hhas _ hne.symm]
      · simp [hin, hin']
  | _ => rfl

/-- One session. The agent's clock was set back between its two patches. -/
def clockSetBack : Database where
  states := Table.empty.insert stage
  sessions := Table.empty.insert ⟨1, "monday", 0⟩
  snapshots := [⟨1, some 1, some 1, .obj [("x", .num 0), ("y", .num 0)], 1, 0⟩]
  patches :=
    [⟨1, some 1, some 1, "replace", "/x", .num 1, 20, 1, none⟩,
      ⟨1, some 1, some 1, "replace", "/y", .num 2, 10, 2, none⟩]

/-- The first session alone is read as it was: also by a call that reads every state, and where two
patches that commute are read in the wrong order. -/
theorem one_session_reconstructs :
    (∀ jsonpatch, Reconstructs { twoSessions with
        snapshots := twoSessions.snapshots.take 1
        patches := twoSessions.patches.take 1 } 1 none jsonpatch none 0 0 (1, ⟨1, "monday", 0⟩)) ∧
      Reconstructs clockSetBack 1 none replaceMember none 0 0 (1, ⟨1, "monday", 0⟩) := by
  constructor
  · refine (reconstructs_iff (stage_statesUnique rfl) fun c hc => ?_).2.mpr fun jsonpatch =>
      ⟨(1, ⟨1, "monday", 0⟩), rfl, fun c hc => ?_⟩
    · obtain rfl := List.mem_singleton.mp hc
      rfl
    · obtain rfl := List.mem_singleton.mp hc
      exact ⟨_, _, [], rfl, rfl, rfl, .refl _⟩
  · refine (reconstructs_iff (stage_statesUnique rfl) fun c hc => ?_).1 replaceMember
      ⟨(1, ⟨1, "monday", 0⟩), rfl, fun c hc => ?_⟩
    · obtain rfl := List.mem_singleton.mp hc
      rfl
    · obtain rfl := List.mem_singleton.mp hc
      refine ⟨_, _, [], rfl, rfl, rfl, ?_⟩
      exact .swap [] (replaceMember_comm (.num 2) (.num 1) rfl rfl (by decide))

end TimeTravel
end Rekuest
