import Rekuest.StateQueries
import Rekuest.States.TimeTravel

/-!
# Rekuest.States.Checkout

The checkout of one state against the checkout of its agent, for the same target.

* `lastRevision`: the revision of the last row that the agent's checkout applies to a state.
* `Agree`: the checkout of the state answers, with the agent's value and that revision.
* `Carries`: a condition on the log, under which the two agree.
-/

namespace Rekuest
namespace Checkout

open Fallible Logic Replay StateQueries TimeTravel
open Interleave (Table)

variable (db : Database) (jsonpatch : Json → PatchDoc → Option Json)

/-- The revision of the last snapshot or patch that is applied to a state. -/
def revisionOf (agent : AgentId) (session : SessionKey) (globalRevision : Option Int)
    (state : StateId) : Option Int :=
  (snapshotOf db agent session globalRevision state).map fun snapshot =>
    ((patchesAfter db agent globalRevision state snapshot).foldl (Reading.apply jsonpatch)
      ⟨snapshot.value, snapshot.globalRev, 0⟩).globalRevision

/-- The session and the bound that the checkout of an agent reads. -/
def targeted (agent : AgentId) (target : Target) : Except Error (SessionKey × Option Int) := do
  let address ← checkoutAgentAddress db agent target
  let t ← findSession db agent address.sessionId
  return (t.1, address.globalRevision)

def lastRevision (agent : AgentId) (target : Target) (state : StateId) : Option Int :=
  match targeted db agent target with
  | .ok (session, globalRevision) => revisionOf db jsonpatch agent session globalRevision state
  | .error _ => none

/-- The checkout of the state answers, with the value that the checkout of the agent has under
its interface, and with the revision of the last row applied. -/
def Agree (state : StateId × State) (target : Target) (forward backward : Int)
    (whole : AgentWithValues) : Prop :=
  ∃ one, checkout db jsonpatch state.1 target forward backward = .ok one ∧
    whole.values.get? state.2.interface = some one.value ∧
    ∃ revision, lastRevision db jsonpatch state.2.agent target state.1 = some revision ∧
      one.globalRevision = some (.num revision)

/-- The two sessions that a target addresses: the one that its name finds, and the one that is
found under the decimal of its primary key, where a patch is what names it. -/
inductive Addressed (agent : AgentId) (target : Target) :
    SessionKey → SessionKey → Option Int → Prop where
  | direct {t : SessionKey × Session} :
      target.timestamp = none → findSession db agent target.sessionId = .ok t →
      Addressed agent target t.1 t.1 target.globalRevision
  | patched {timestamp : Time} {patch : Patch} {key : SessionKey} {row : Session}
      {named numbered : SessionKey × Session} :
      target.timestamp = some timestamp →
      latestPatch db timestamp (fun p => p.agent = some agent) = some patch →
      patch.session = some key → db.sessions.get key = some row →
      findSession db agent (some row.sessionId) = .ok named →
      findSession db agent (some (toString key)) = .ok numbered →
      Addressed agent target named.1 numbered.1 (some patch.globalRev)

/-- The state's document in the addressed session is an object that has its own revision as a
member, and the session's key, read as a name, finds the same document. -/
def Carries (agent : AgentId) (target : Target) (state : StateId) : Prop :=
  ∃ named numbered globalRevision members revision,
    Addressed db agent target named numbered globalRevision ∧
    reading db agent named globalRevision jsonpatch state = some (.obj members) ∧
    reading db agent numbered globalRevision jsonpatch state = some (.obj members) ∧
    revisionOf db jsonpatch agent named globalRevision state = some revision ∧
    Dict.get? members "global_revision" = some (.num revision)

variable {db jsonpatch} {agent : AgentId} {state : StateId} {row : State} {target : Target}
  {forward backward : Int}

/-! ## The two resolvers -/

theorem getMember_ok_iff {key : String} {doc : Json} {member : Option Json} :
    getMember key doc = .ok member ↔ ∃ members, doc = .obj members ∧ Dict.get? members key = member := by
  cases doc <;> simp [getMember]

theorem snapshotOf_isSome_of_reading {session : SessionKey} {globalRevision : Option Int}
    {value : Json} (h : reading db agent session globalRevision jsonpatch state = some value) :
    (snapshotOf db agent session globalRevision state).isSome := by
  rw [reading, Option.map_eq_some_iff] at h
  obtain ⟨snapshot, hs, _⟩ := h
  exact Option.isSome_iff_exists.mpr ⟨snapshot, hs⟩

theorem mem_statesOf (hrow : db.states.get state = some row) :
    (state, row) ∈ statesOf db row.agent none ∧ (state, row) ∈ statesOf db row.agent (some state) :=
  ⟨Table.mem_select.mpr ⟨hrow, by simp⟩, Table.mem_select.mpr ⟨hrow, by simp⟩⟩

/-- The one state that a call for it reads. -/
theorem eq_of_mem_statesOf (hrow : db.states.get state = some row) {c : StateId × State}
    (hc : c ∈ statesOf db row.agent (some state)) : c = (state, row) := by
  obtain ⟨hget, hid⟩ := Table.mem_select.mp hc
  simp only [Bool.and_eq_true, Option.all_some, decide_eq_true_eq] at hid
  rw [hid.2, hrow] at hget
  exact Prod.ext hid.2 (Option.some.inj hget).symm

/-- What the checkout of a state answers, read off the log. -/
theorem checkout_value_iff (hunique : db.StatesUnique) (hrow : db.states.get state = some row)
    {value : Json} {member : Option Json} :
    (∃ one, checkout db jsonpatch state target forward backward = .ok one ∧
      one.value = value ∧ one.globalRevision = member) ↔
    ∃ address t members, checkoutAddress db state row.agent target = .ok address ∧
      findSession db row.agent address.sessionId = .ok t ∧
      reading db row.agent t.1 address.globalRevision jsonpatch state = some (.obj members) ∧
      value = .obj members ∧ Dict.get? members "global_revision" = member := by
  constructor
  · intro h
    obtain ⟨one, hone, rfl, rfl⟩ := h
    obtain ⟨stateInst, hget, hone⟩ := bind_ok_iff.mp hone
    rw [orRaise_ok_iff, hrow] at hget
    cases hget
    obtain ⟨address, haddress, hone⟩ := bind_ok_iff.mp hone
    obtain ⟨payload, hpayload, hone⟩ := bind_ok_iff.mp hone
    obtain ⟨t, ht, hread⟩ := getLatestState_ok hunique hpayload
    obtain ⟨read, hreading, hstate⟩ := hread (state, row) (mem_statesOf hrow).2
    obtain ⟨stateData, hdata, hone⟩ := bind_ok_iff.mp hone
    rw [orRaise_ok_iff, hstate] at hdata
    cases hdata
    obtain ⟨member, hmember, hone⟩ := bind_ok_iff.mp hone
    obtain ⟨members, hobj, hget⟩ := getMember_ok_iff.mp hmember
    subst hobj
    rw [← pure_ok_iff.mp hone]
    exact ⟨address, t, members, haddress, ht, hreading, rfl, hget⟩
  · intro h
    obtain ⟨address, t, members, haddress, ht, hreading, rfl, hmember⟩ := h
    have hsome : ∀ c ∈ statesOf db row.agent (some state),
        (snapshotOf db row.agent t.1 address.globalRevision c.1).isSome := by
      intro c hc
      rw [eq_of_mem_statesOf hrow hc]
      exact snapshotOf_isSome_of_reading hreading
    obtain ⟨payload, hpayload⟩ : ∃ payload, getLatestState db row.agent jsonpatch (some state)
        address.sessionId address.globalRevision forward backward = .ok payload :=
      getLatestState_total ht hsome
    obtain ⟨t', ht', hread⟩ := getLatestState_ok hunique hpayload
    rw [ht] at ht'
    cases ht'
    obtain ⟨read, hreading', hstate⟩ := hread (state, row) (mem_statesOf hrow).2
    rw [show reading db row.agent t.1 address.globalRevision jsonpatch (state, row).1 = _
      from hreading] at hreading'
    cases hreading'
    have hmember := getMember_ok_iff.mpr ⟨members, rfl, hmember⟩
    exact ⟨⟨state, .obj members, member, payload.forwardPatches, payload.backwardPatches⟩,
      bind_ok_iff.mpr ⟨row, orRaise_ok_iff.mpr hrow, bind_ok_iff.mpr ⟨address, haddress,
        bind_ok_iff.mpr ⟨payload, hpayload, bind_ok_iff.mpr ⟨_, orRaise_ok_iff.mpr hstate,
          bind_ok_iff.mpr ⟨member, hmember, rfl⟩⟩⟩⟩⟩, rfl, rfl⟩

/-- What the checkout of an agent answers for one of its states. -/
theorem checkoutAgent_value (hunique : db.StatesUnique) (hrow : db.states.get state = some row)
    {whole : AgentWithValues}
    (h : checkoutAgent db jsonpatch row.agent target forward backward = .ok whole) :
    ∃ address t value, checkoutAgentAddress db row.agent target = .ok address ∧
      findSession db row.agent address.sessionId = .ok t ∧
      reading db row.agent t.1 address.globalRevision jsonpatch state = some value ∧
      whole.values.get? row.interface = some value := by
  obtain ⟨_, _, h⟩ := bind_ok_iff.mp h
  obtain ⟨address, haddress, h⟩ := bind_ok_iff.mp h
  obtain ⟨payload, hpayload, h⟩ := bind_ok_iff.mp h
  obtain ⟨t, ht, hread⟩ := getLatestState_ok hunique hpayload
  obtain ⟨value, hreading, hstate⟩ := hread (state, row) (mem_statesOf hrow).1
  rw [← pure_ok_iff.mp h]
  exact ⟨address, t, value, haddress, ht, hreading, hstate⟩

/-! ## The two targets -/

/-- The agent's youngest patch is the state's youngest patch, if it is one of the state. -/
theorem latestPatch_of_agent {timestamp : Time} {patch : Patch}
    (h : latestPatch db timestamp (fun p => p.agent = some agent) = some patch)
    (hstate : patch.state = state) :
    latestPatch db timestamp (fun p => p.state = state && p.agent = some agent) = some patch := by
  have hfilter := head?_orderByDesc_filter (p := fun p => p.state = state) h
    (decide_eq_true hstate)
  rw [List.filter_filter] at hfilter
  simpa only [latestPatch, Bool.and_assoc] using hfilter

/-- What the two resolvers read is addressed by the target, where the agent's youngest patch is
one of the state; and they read up to the same revision. -/
theorem addressed_of_resolved
    (hlatest : ∀ timestamp patch, target.timestamp = some timestamp →
      latestPatch db timestamp (fun p => p.agent = some agent) = some patch → patch.state = state)
    {a a' : Address} {t t' : SessionKey × Session}
    (ha : checkoutAgentAddress db agent target = .ok a)
    (ht : findSession db agent a.sessionId = .ok t)
    (ha' : checkoutAddress db state agent target = .ok a')
    (ht' : findSession db agent a'.sessionId = .ok t') :
    a'.globalRevision = a.globalRevision ∧
      Addressed db agent target t.1 t'.1 a.globalRevision := by
  cases htime : target.timestamp with
  | none =>
    simp only [checkoutAgentAddress, htime, Except.ok.injEq] at ha
    simp only [checkoutAddress, htime, Except.ok.injEq] at ha'
    subst ha ha'
    rw [ht] at ht'
    cases ht'
    exact ⟨rfl, .direct htime ht⟩
  | some timestamp =>
    cases hpatch : latestPatch db timestamp (fun p => p.agent = some agent) with
    | none => simp [checkoutAgentAddress, htime, hpatch] at ha
    | some patch =>
      have hsame := latestPatch_of_agent hpatch (hlatest timestamp patch htime hpatch)
      cases hkey : patch.session with
      | none => simp [checkoutAgentAddress, htime, hpatch, hkey] at ha
      | some key =>
        cases hsession : db.sessions.get key with
        | none => simp [checkoutAgentAddress, htime, hpatch, hkey, hsession] at ha
        | some session =>
          simp only [checkoutAgentAddress, htime, hpatch, hkey, Option.bind_some, hsession,
            Except.ok.injEq] at ha
          simp only [checkoutAddress, htime, hsame, hkey, Except.ok.injEq] at ha'
          subst ha ha'
          exact ⟨rfl, .patched htime hpatch hkey hsession ht ht'⟩

/-- What a target addresses is what the two resolvers read. -/
theorem resolved_of_addressed
    (hlatest : ∀ timestamp patch, target.timestamp = some timestamp →
      latestPatch db timestamp (fun p => p.agent = some agent) = some patch → patch.state = state)
    {named numbered : SessionKey} {globalRevision : Option Int}
    (h : Addressed db agent target named numbered globalRevision) :
    ∃ a a' t t', checkoutAgentAddress db agent target = .ok a ∧
      findSession db agent a.sessionId = .ok t ∧
      checkoutAddress db state agent target = .ok a' ∧
      findSession db agent a'.sessionId = .ok t' ∧ t.1 = named ∧ t'.1 = numbered ∧
      a.globalRevision = globalRevision ∧ a'.globalRevision = globalRevision := by
  cases h with
  | direct htime ht =>
    have ha : checkoutAgentAddress db agent target =
        .ok ⟨target.sessionId, target.globalRevision⟩ := by
      simp only [checkoutAgentAddress, htime]
    have ha' : checkoutAddress db state agent target =
        .ok ⟨target.sessionId, target.globalRevision⟩ := by
      simp only [checkoutAddress, htime]
    exact ⟨_, _, _, _, ha, ht, ha', ht, rfl, rfl, rfl, rfl⟩
  | @patched timestamp patch key session named numbered htime hpatch hkey hsession ht ht' =>
    have hsame := latestPatch_of_agent hpatch (hlatest timestamp patch htime hpatch)
    have ha : checkoutAgentAddress db agent target =
        .ok ⟨some session.sessionId, some patch.globalRev⟩ := by
      simp only [checkoutAgentAddress, htime, hpatch, hkey, Option.bind_some, hsession]
    have ha' : checkoutAddress db state agent target =
        .ok ⟨some (toString key), some patch.globalRev⟩ := by
      simp only [checkoutAddress, htime, hsame, hkey]
    exact ⟨_, _, _, _, ha, ht, ha', ht', rfl, rfl, rfl, rfl⟩

theorem lastRevision_eq {address : Address} {t : SessionKey × Session}
    (ha : checkoutAgentAddress db agent target = .ok address)
    (ht : findSession db agent address.sessionId = .ok t) :
    lastRevision db jsonpatch agent target state =
      revisionOf db jsonpatch agent t.1 address.globalRevision state := by
  have htarget : targeted db agent target = .ok (t.1, address.globalRevision) :=
    bind_ok_iff.mpr ⟨address, ha, bind_ok_iff.mpr ⟨t, ht, rfl⟩⟩
  rw [lastRevision, htarget]

/-! ## When the two agree -/

/-- Where the checkout of the agent answers, the checkout of a state answers the same value with
the revision of the last row applied, if and only if the document carries that revision. -/
theorem agree_iff_carries (hunique : db.StatesUnique) (hrow : db.states.get state = some row)
    (hlatest : ∀ timestamp patch, target.timestamp = some timestamp →
      latestPatch db timestamp (fun p => p.agent = some row.agent) = some patch →
      patch.state = state) {whole : AgentWithValues}
    (h : checkoutAgent db jsonpatch row.agent target forward backward = .ok whole) :
    Agree db jsonpatch (state, row) target forward backward whole ↔
      Carries db jsonpatch row.agent target state := by
  obtain ⟨a, t, value, ha, ht, hreading, hvalue⟩ := checkoutAgent_value hunique hrow h
  have hrevision := @lastRevision_eq db jsonpatch row.agent state target a t ha ht
  constructor
  · intro hagree
    obtain ⟨one, hone, hsame, revision, hlast, hmember⟩ := hagree
    obtain ⟨a', t', members, ha', ht', hreading', hobj, hget⟩ :=
      (checkout_value_iff hunique hrow).mp ⟨one, hone, rfl, rfl⟩
    obtain ⟨hbound, haddressed⟩ := addressed_of_resolved hlatest ha ht ha' ht'
    rw [hvalue, hobj] at hsame
    cases hsame
    rw [hbound] at hreading'
    rw [hmember] at hget
    exact ⟨_, _, _, members, revision, haddressed, hreading, hreading', hrevision ▸ hlast, hget⟩
  · intro hcarries
    obtain ⟨named, numbered, r, members, revision, haddressed, hnamed, hnumbered, hrev, hget⟩ :=
      hcarries
    obtain ⟨b, b', u, u', hb, hu, hb', hu', rfl, rfl, rfl, hr⟩ :=
      resolved_of_addressed hlatest haddressed
    rw [ha] at hb
    cases hb
    rw [ht] at hu
    cases hu
    rw [← hr] at hnumbered
    obtain ⟨one, hone, hobj, hmember⟩ :=
      (@checkout_value_iff db jsonpatch state row target forward backward hunique hrow _ _).mpr
        ⟨b', u', members, hb', hu', hnumbered, rfl, hget⟩
    rw [hnamed] at hreading
    cases hreading
    exact ⟨one, hone, by rw [hvalue, hobj], revision, by rw [hrevision, hrev], hmember⟩

/-! ## A document without a revision -/

/-- A microscope with one state, and what it logged of it in one session. -/
def microscope (snapshots : List Snapshot) (patches : List Patch) : Database where
  agents := Table.empty.insert {
    name := "microscope"
    app := "mikro"
    release := "1.0"
    hash := ""
    user := ⟨1, "user"⟩
    client := ⟨1, "client"⟩
    organization := ⟨1, "org"⟩ }
  states := Table.empty.insert stage
  sessions := Table.empty.insert ⟨1, "monday", 0⟩
  snapshots := snapshots
  patches := patches

/-- The stage moved once. The checkout of the agent answers for both targets; that of the stage
has no revision for the first, and no session for the second. -/
theorem moved_stage_disagrees :
    let db := microscope [⟨1, some 1, some 1, position 0, 1, 0⟩]
      [⟨1, some 1, some 1, "replace", "/x", .num 1, 10, 1, none⟩]
    ∃ whole,
      checkoutAgent db replaceMember 1 {} 0 0 = .ok whole ∧
      checkoutAgent db replaceMember 1 { timestamp := some 10 } 0 0 = .ok whole ∧
      whole.values.get? "stage" = some (position 1) ∧ whole.globalRevision = 1 ∧
      ¬Agree db replaceMember (1, stage) {} 0 0 whole ∧
      checkout db replaceMember 1 { timestamp := some 10 } 0 0 =
        .error (.doesNotExist "Session") := by
  intro db
  refine ⟨⟨1, [("stage", position 1)], 1, [], []⟩, rfl, rfl, rfl, rfl, ?_, rfl⟩
  intro h
  obtain ⟨one, hone, _, revision, _, hmember⟩ := h
  have hnull : (checkout db replaceMember 1 {} 0 0).map StateValue.globalRevision = .ok none := rfl
  rw [hone] at hnull
  rw [show one.globalRevision = none from Except.ok.inj hnull] at hmember
  cases hmember

/-- A document that counts its own revisions is checked out alike. -/
theorem counting_stage_agrees :
    let db := microscope [⟨1, some 1, some 1, .obj [("global_revision", .num 3)], 1, 3⟩] []
    ∃ whole, checkoutAgent db replaceMember 1 {} 0 0 = .ok whole ∧
      (Agree db replaceMember (1, stage) {} 0 0 whole ↔
        Carries db replaceMember 1 {} 1) ∧ Carries db replaceMember 1 {} 1 := by
  refine ⟨⟨1, [("stage", .obj [("global_revision", .num 3)])], 3, [], []⟩, rfl, ?_, ?_⟩
  · exact @agree_iff_carries _ replaceMember 1 stage {} 0 0 (stage_statesUnique rfl) rfl
      (fun _ _ h => (by cases h)) _ rfl
  · exact ⟨1, 1, none, _, 3, .direct (t := (1, ⟨1, "monday", 0⟩)) rfl rfl, rfl, rfl, rfl, rfl⟩

end Checkout
end Rekuest
