import Rekuest.Store

/-!
# Rekuest.Lease.Predicates

Do the predicates on an agent and the filters of the database say the same?

* `Agree`: they do for an agent, a connected agent is either live or stale, and one whose lease can be
  taken over is one that the sweep finds.
* `agree_iff`: so it is except for a connected agent whose last heartbeat is on the cutoff, and for one
  that is connected and not live without being a websocket agent.
-/

namespace Rekuest
namespace Liveness

open Interleave

variable {S : Settings} {i : Input} {now : Time} {db : Database} {id : AgentId} {agent : Agent}

/-- `_claim_lease_sync` lets another connection have the lease of a connected agent. -/
def Displaceable (S : Settings) (i : Input) (agent : Agent) : Prop :=
  ∃ connection session,
    (agent.toLeaseColumns.claim S i connection session false).1.claimed = true ∧
      (agent.toLeaseColumns.claim S i connection session false).1.displacedIncumbent = true

structure Agree (S : Settings) (i : Input) (db : Database) (id : AgentId) (agent : Agent) : Prop where
  live : liveAgentQ S i.now agent.toLeaseColumns = agentIsLive S i.now agent.connected agent.lastSeen
  stale :
    staleAgentQ S i.now agent.toLeaseColumns = agentIsStale S i.now agent.connected agent.lastSeen
  selected : agent.connected = true →
    liveAgentQ S i.now agent.toLeaseColumns = !staleAgentQ S i.now agent.toLeaseColumns
  holds : agent.connected = true →
    agentIsLive S i.now agent.connected agent.lastSeen =
      !agentIsStale S i.now agent.connected agent.lastSeen
  found : Displaceable S i agent → id ∈ Query.eval S i db .staleAgents

theorem liveAgentQ_eq (row : LeaseColumns) :
    liveAgentQ S now row = agentIsLive S now row.connected row.lastSeen := by
  unfold liveAgentQ agentIsLive
  cases row.lastSeen with
  | none => simp
  | some seen => rfl

/-- The two versions of staleness part on the cutoff. -/
theorem staleAgentQ_eq_iff (row : LeaseColumns) :
    staleAgentQ S now row = agentIsStale S now row.connected row.lastSeen ↔
      (row.connected = true → row.lastSeen ≠ some (now - S.staleAfterSeconds)) := by
  unfold staleAgentQ agentIsStale agentIsLive
  cases row.connected with
  | false => simp
  | true =>
    cases row.lastSeen with
    | none => simp
    | some seen =>
      simp only [Bool.true_and, ne_eq, Option.some.injEq, forall_const, ← decide_not,
        decide_eq_decide]
      generalize now - S.staleAfterSeconds = cutoff
      rcases Int.lt_trichotomy seen cutoff with hlt | rfl | hgt
      · simp [hlt, Int.ne_of_lt hlt, Int.not_lt.mpr (Int.le_of_lt hlt)]
      · simp
      · simp [hgt, Int.ne_of_gt hgt, Int.not_lt.mpr (Int.le_of_lt hgt)]

theorem displaceable_iff :
    Displaceable S i agent ↔
      agent.connected = true ∧ agentIsLive S i.now agent.connected agent.lastSeen = false := by
  unfold Displaceable LeaseColumns.claim
  constructor
  · intro h
    obtain ⟨_, _, hclaimed, hdisplaced⟩ := h
    split at hclaimed
    · cases hclaimed
    · rename_i hlive
      rw [if_neg hlive] at hdisplaced
      exact ⟨hdisplaced, by simpa using hlive⟩
  · intro h
    refine ⟨none, none, ?_⟩
    simp [h.1, h.1 ▸ h.2]

theorem mem_staleAgents (h : db.agents.get id = some agent) :
    id ∈ Query.eval S i db .staleAgents ↔
      agent.kind = .websocket ∧ staleAgentQ S i.now agent.toLeaseColumns = true := by
  have hmem : id ∈ Query.eval S i db .staleAgents ↔ ∃ row, (id, row) ∈
      db.agents.selectBy i.rank fun _ agent =>
        agent.kind = .websocket && staleAgentQ S i.now agent.toLeaseColumns := by
    simp only [Query.eval, List.mem_map, Prod.exists]
    constructor
    · intro hx
      obtain ⟨_, row, hrow, rfl⟩ := hx
      exact ⟨row, hrow⟩
    · intro hx
      obtain ⟨row, hrow⟩ := hx
      exact ⟨id, row, hrow, rfl⟩
  rw [hmem]
  simp only [Table.mem_selectBy, h, Option.some.injEq]
  constructor
  · intro hx
    obtain ⟨row, rfl, hrow⟩ := hx
    simpa using hrow
  · intro hx
    exact ⟨agent, rfl, by simpa using hx⟩

/-- **The predicates agree**, except on the cutoff and for agents that are not on a websocket. -/
theorem agree_iff (S : Settings) (i : Input) (db : Database) (id : AgentId) (agent : Agent)
    (h : db.agents.get id = some agent) :
    Agree S i db id agent ↔
      (agent.connected = true →
        agent.lastSeen ≠ some (i.now - S.staleAfterSeconds) ∧
          (agent.kind = .websocket ∨
            agentIsLive S i.now agent.connected agent.lastSeen = true)) := by
  constructor
  · intro hagree hconnected
    refine ⟨(staleAgentQ_eq_iff _).mp hagree.stale hconnected, ?_⟩
    cases hlive : agentIsLive S i.now agent.connected agent.lastSeen with
    | true => exact .inr rfl
    | false =>
      have hfound := hagree.found (displaceable_iff.mpr ⟨hconnected, hlive⟩)
      exact .inl ((mem_staleAgents h).mp hfound).1
  · intro hcondition
    have hstale : staleAgentQ S i.now agent.toLeaseColumns =
        agentIsStale S i.now agent.connected agent.lastSeen :=
      (staleAgentQ_eq_iff _).mpr fun hconnected => (hcondition hconnected).1
    have hholds : agent.connected = true → agentIsLive S i.now agent.connected agent.lastSeen =
        !agentIsStale S i.now agent.connected agent.lastSeen := by
      intro hconnected
      simp [agentIsStale, hconnected]
    constructor
    case live => exact liveAgentQ_eq _
    case stale => exact hstale
    case selected =>
      intro hconnected
      rw [hstale, liveAgentQ_eq]
      exact hholds hconnected
    case holds => exact hholds
    case found =>
      intro hdisplaceable
      obtain ⟨hconnected, hdead⟩ := displaceable_iff.mp hdisplaceable
      refine (mem_staleAgents h).mpr ⟨?_, ?_⟩
      · rcases (hcondition hconnected).2 with hkind | hlive
        · exact hkind
        · rw [hdead] at hlive
          cases hlive
      · rw [hstale, agentIsStale, hconnected, ← hconnected, hdead, hconnected]
        rfl

/-- A connected agent that was last seen at this time. -/
def seenAt (lastSeen : Time) : Agent where
  name := "microscope"
  app := "scope"
  release := "1.0"
  hash := ""
  connected := true
  lastSeen := some lastSeen
  user := ⟨1, "user"⟩
  client := ⟨1, "client"⟩
  organization := ⟨1, "org"⟩

/-- With the default window of 30 seconds the cutoff is at 70, and a heartbeat at 60 is before it. -/
theorem before_cutoff_agree :
    Agree {} { now := 100 } { agents := Table.empty.insert (seenAt 60) } 1 (seenAt 60) :=
  (agree_iff {} { now := 100 } { agents := Table.empty.insert (seenAt 60) } 1 (seenAt 60) rfl).mpr
    fun _ => ⟨by decide, .inl rfl⟩

/-- On the cutoff the agent is stale and its lease can be taken over, but the filter misses it. -/
theorem on_cutoff_missed :
    agentIsStale {} 100 true (some 70) = true ∧
      staleAgentQ {} 100 (seenAt 70).toLeaseColumns = false ∧
      liveAgentQ {} 100 (seenAt 70).toLeaseColumns = false ∧
      Displaceable {} { now := 100 } (seenAt 70) ∧
      Query.eval {} { now := 100 } { agents := Table.empty.insert (seenAt 70) } .staleAgents = [] ∧
      ¬ Agree {} { now := 100 } { agents := Table.empty.insert (seenAt 70) } 1 (seenAt 70) := by
  have hmissed : staleAgentQ {} 100 (seenAt 70).toLeaseColumns ≠ agentIsStale {} 100 true (some 70) := by
    decide
  exact ⟨by decide, by decide, by decide, ⟨none, none, by decide, by decide⟩, rfl,
    fun hagree => hmissed hagree.stale⟩

end Liveness
end Rekuest
