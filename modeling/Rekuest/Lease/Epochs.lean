import Rekuest.Interleave.Fencing
import Rekuest.Lease.Rows

/-!
# Rekuest.Lease.Epochs

`lease_epoch` as a fencing token. Every lease call is one atomic statement, so an interleaving
of calls is a list of statements, each with the clock its process reads.

* `Call`: one call, in the database it found. `steps`: the calls of a run.
* `Outcome`: what a call came to for one agent. `Outcome.move`: the same as a move of the
  abstract fencing token.
* `steps_run`: the run of calls refines a run of the token.
* `lease_fencing`: what follows for the epochs of an agent.
-/

namespace Rekuest
namespace Lease

open Interleave

variable {S : Settings}

/-! ## Calls -/

/-- A lease call, with the input it runs on and the database it finds. -/
structure Call where
  input : Input
  stmt : LeaseStmt
  before : Database

def Call.answer (S : Settings) (c : Call) : c.stmt.Ans := (c.stmt.exec S c.input c.before).1

def Call.after (S : Settings) (c : Call) : Database := (c.stmt.exec S c.input c.before).2

/-- The calls of a run from `db`. -/
def steps (S : Settings) : Database → List (Input × LeaseStmt) → List Call
  | _, [] => []
  | db, (i, stmt) :: rest =>
    let c : Call := ⟨i, stmt, db⟩
    c :: steps S (c.after S) rest

/-- The database a run leaves. -/
def final (S : Settings) : Database → List (Input × LeaseStmt) → Database
  | db, [] => db
  | db, (i, stmt) :: rest => final S (stmt.exec S i db).2 rest

/-- What a call came to, seen from one agent. -/
inductive Outcome where
  | claimed (epoch : Int)
  | revoked
  | renewed (epoch : Int)
  /-- A claim or a revoke that did not win. -/
  | refused
  /-- A renewal that failed. -/
  | fenced (epoch : Int)
  /-- A release, or a call on another agent. -/
  | other
  deriving DecidableEq

/-- A claim or a revoke that won. -/
def Outcome.Bumps : Outcome → Prop
  | .claimed _ => True
  | .revoked => True
  | _ => False

def claimOutcome (answer : ClaimAnswer) : Outcome :=
  match answer.claimed, answer.epoch with
  | true, some e => .claimed e
  | _, _ => .refused

def outcomeOf : (stmt : LeaseStmt) → stmt.Ans → Outcome
  | .claim .., some answer => claimOutcome answer
  | .claim .., none => .refused
  | .revoke _, some true => .revoked
  | .revoke _, _ => .refused
  | .renew _ e, true => .renewed e
  | .renew _ e, false => .fenced e
  | .release _, _ => .other

def Call.outcome (S : Settings) (a : AgentId) (c : Call) : Outcome :=
  if c.stmt.target = a then outcomeOf c.stmt (c.answer S) else .other

/-- The agent's `lease_epoch`. -/
def epoch (db : Database) (a : AgentId) : Option Int := (db.agents.get a).map (·.leaseEpoch)

/-! ## One call -/

/-- What one call does to the agent's epoch, by its outcome. -/
def Law (S : Settings) (a : AgentId) (c : Call) : Prop :=
  match c.outcome S a with
  | .claimed e => ∃ e₀, epoch c.before a = some e₀ ∧ epoch (c.after S) a = some e ∧ e₀ < e
  | .revoked => ∃ e₀ e, epoch c.before a = some e₀ ∧ epoch (c.after S) a = some e ∧ e₀ < e
  | .renewed e => epoch c.before a = some e ∧ epoch (c.after S) a = some e
  | .refused => c.after S = c.before
  | .fenced e => epoch c.before a ≠ some e ∧ c.after S = c.before
  | .other => epoch (c.after S) a = epoch c.before a

theorem epoch_exec {i : Input} {stmt : LeaseStmt} {db : Database} {a : AgentId} :
    epoch (stmt.exec S i db).2 a =
      if a = stmt.target then
        (db.agents.get a).map fun agent => (stmt.onRow S i agent.toLeaseColumns).2.leaseEpoch
      else epoch db a := by
  unfold epoch
  rw [LeaseStmt.get_exec]
  split
  · cases db.agents.get a <;> rfl
  · rfl

theorem epoch_of_get {i : Input} {c : LeaseStmt} {db : Database} {agent : Agent}
    (h : db.agents.get c.target = some agent) :
    epoch (c.exec S i db).2 c.target =
      some (c.onRow S i agent.toLeaseColumns).2.leaseEpoch := by
  rw [epoch_exec, if_pos rfl, h]
  rfl

theorem answer_of_get {i : Input} {c : LeaseStmt} {db : Database} {agent : Agent}
    (h : db.agents.get c.target = some agent) :
    (c.exec S i db).1 = (c.onRow S i agent.toLeaseColumns).1 := by
  simp only [LeaseStmt.exec]
  rw [h]

theorem answer_of_missing {i : Input} {stmt : LeaseStmt} {db : Database}
    (h : db.agents.get stmt.target = none) : stmt.exec S i db = (stmt.missing, db) := by
  simp only [LeaseStmt.exec]
  rw [h]

theorem law_missing {a : AgentId} {c : Call} (ht : c.stmt.target = a)
    (h : c.before.agents.get a = none) : Law S a c := by
  obtain ⟨i, stmt, db⟩ := c
  subst ht
  have hx : stmt.exec S i db = (stmt.missing, db) := answer_of_missing h
  have he : epoch db stmt.target = none := by simp [epoch, h]
  unfold Law Call.outcome Call.after Call.answer
  simp only [hx, if_true]
  cases stmt with
  | claim agent connection session force => trivial
  | revoke agent => trivial
  | renew agent e => exact ⟨by rw [he]; simp, trivial⟩
  | release agent => trivial

theorem law_claim {i : Input} {db : Database} {a : AgentId} {agent : Agent}
    {connection : Option ConnectionId} {session : Option SessionId} {force : Bool}
    (h : db.agents.get a = some agent) :
    Law S a ⟨i, .claim a connection session force, db⟩ := by
  have he : epoch db a = some agent.leaseEpoch := by simp [epoch, h]
  have hafter := epoch_of_get (S := S) (i := i) (c := .claim a connection session force) h
  have hans := answer_of_get (S := S) (i := i) (c := .claim a connection session force) h
  unfold Law Call.outcome Call.answer Call.after
  simp only [LeaseStmt.target, if_true, hans, LeaseStmt.onRow]
  cases hc : (agent.toLeaseColumns.claim S i connection session force).1.claimed with
  | false =>
    have hself : ((LeaseStmt.claim a connection session force).exec S i db).2 = db := by
      refine LeaseStmt.exec_eq_self fun agent' h' => ?_
      cases h.symm.trans h'
      exact claim_refused hc
    simpa only [outcomeOf, claimOutcome, hc] using hself
  | true =>
    obtain ⟨h1, h2⟩ := claim_claimed hc
    simp only [outcomeOf, claimOutcome, hc, h1]
    exact ⟨agent.leaseEpoch, he, hafter.trans (congrArg (some ·.leaseEpoch) h2), by omega⟩

theorem law_revoke {i : Input} {db : Database} {a : AgentId} {agent : Agent}
    (h : db.agents.get a = some agent) : Law S a ⟨i, .revoke a, db⟩ := by
  have he : epoch db a = some agent.leaseEpoch := by simp [epoch, h]
  have hafter := epoch_of_get (S := S) (i := i) (c := .revoke a) h
  have hans := answer_of_get (S := S) (i := i) (c := .revoke a) h
  unfold Law Call.outcome Call.answer Call.after
  simp only [LeaseStmt.target, if_true, hans, LeaseStmt.onRow]
  cases hc : (agent.toLeaseColumns.revoke S i).1 with
  | false =>
    refine LeaseStmt.exec_eq_self fun agent' h' => ?_
    cases h.symm.trans h'
    exact revoke_refused hc
  | true =>
    exact ⟨agent.leaseEpoch, agent.leaseEpoch + 1, he,
      hafter.trans (congrArg (some ·.leaseEpoch) (revoke_won hc)), by omega⟩

theorem law_renew {i : Input} {db : Database} {a : AgentId} {agent : Agent} {e : Int}
    (h : db.agents.get a = some agent) : Law S a ⟨i, .renew a e, db⟩ := by
  have he : epoch db a = some agent.leaseEpoch := by simp [epoch, h]
  have hafter := epoch_of_get (S := S) (i := i) (c := .renew a e) h
  have hans := answer_of_get (S := S) (i := i) (c := .renew a e) h
  unfold Law Call.outcome Call.answer Call.after
  simp only [LeaseStmt.target, if_true, hans, LeaseStmt.onRow]
  cases hc : (agent.toLeaseColumns.renew i e).1 with
  | false =>
    obtain ⟨hrow, hne⟩ := renew_failed hc
    refine ⟨by rw [he]; simpa using hne, LeaseStmt.exec_eq_self fun agent' h' => ?_⟩
    cases h.symm.trans h'
    exact hrow
  | true =>
    obtain ⟨hrow, heq⟩ := renew_renewed hc
    exact ⟨by rw [he, heq], hafter.trans ((congrArg (some ·.leaseEpoch) hrow).trans (by rw [heq]))⟩

theorem law (a : AgentId) (c : Call) : Law S a c := by
  by_cases ht : c.stmt.target = a
  · cases hg : c.before.agents.get a with
    | none => exact law_missing ht hg
    | some agent =>
      obtain ⟨i, stmt, db⟩ := c
      subst ht
      cases stmt with
      | claim agent connection session force => exact law_claim hg
      | revoke agent => exact law_revoke hg
      | renew agent e => exact law_renew hg
      | release a =>
        have hg : db.agents.get a = some agent := hg
        have he := epoch_of_get (S := S) (i := i) (c := .release a) hg
        have hb : epoch db a = some agent.leaseEpoch := by simp [epoch, hg]
        simpa only [Law, Call.outcome, outcomeOf, LeaseStmt.target, if_true, Call.after]
          using he.trans hb.symm
  · have hout : c.outcome S a = .other := if_neg ht
    unfold Law
    rw [hout]
    show epoch (c.stmt.exec S c.input c.before).2 a = epoch c.before a
    rw [epoch_exec, if_neg (Ne.symm ht)]

/-! ## Runs -/

/-- The outcome as a move of the fencing token. -/
def Call.move (S : Settings) (a : AgentId) (c : Call) : Fencing.Move Int :=
  match c.outcome S a with
  | .claimed e => .grant e
  | .revoked => .revoke ((epoch (c.after S) a).getD 0)
  | .renewed e => .check e true
  | .fenced e => if (epoch c.before a).isSome then .check e false else .idle
  | _ => .idle

/-- One call refines one move of the token. -/
theorem step_move (a : AgentId) (c : Call) :
    Fencing.Step ((epoch c.before a).getD 0) (c.move S a) ((epoch (c.after S) a).getD 0) := by
  have hlaw := law (S := S) a c
  unfold Law at hlaw
  unfold Call.move
  cases h : c.outcome S a with
  | claimed e =>
    rw [h] at hlaw
    obtain ⟨e₀, h0, h1, hlt⟩ := hlaw
    rw [h0, h1]
    exact .grant hlt
  | revoked =>
    rw [h] at hlaw
    obtain ⟨e₀, e, h0, h1, hlt⟩ := hlaw
    rw [h0, h1]
    exact .revoke hlt
  | renewed e =>
    rw [h] at hlaw
    rw [hlaw.1, hlaw.2]
    exact .check (by simp)
  | refused =>
    rw [h] at hlaw
    rw [hlaw]
    exact .idle
  | fenced e =>
    rw [h] at hlaw
    rw [hlaw.2]
    cases he : epoch c.before a with
    | none => exact .idle
    | some e₀ =>
      refine .check ⟨by simp, fun heq => (hlaw.1 ?_).elim⟩
      rw [he, heq]
      rfl
  | other =>
    rw [h] at hlaw
    rw [hlaw]
    exact .idle

/-- The calls of a run refine a run of the fencing token. -/
theorem steps_run (a : AgentId) (calls : List (Input × LeaseStmt)) (db : Database) :
    Fencing.Run ((epoch db a).getD 0) ((steps S db calls).map (Call.move S a))
      ((epoch (final S db calls) a).getD 0) := by
  induction calls generalizing db with
  | nil => exact .nil
  | cons x calls ih => exact .cons (step_move a ⟨x.1, x.2, db⟩) (ih _)

/-- The epochs that successful claims of the agent returned, in order. -/
def claimedEpochs (S : Settings) (a : AgentId) (cs : List Call) : List Int :=
  cs.filterMap fun c => match c.outcome S a with
    | .claimed e => some e
    | _ => none

theorem granted_move (a : AgentId) (cs : List Call) :
    Fencing.granted (cs.map (Call.move S a)) = claimedEpochs S a cs := by
  induction cs with
  | nil => rfl
  | cons c cs ih =>
    simp only [List.map_cons, claimedEpochs, List.filterMap_cons, Call.move]
    cases h : c.outcome S a with
    | fenced e =>
      simp only
      split <;> simpa [Fencing.granted, claimedEpochs] using ih
    | _ => simpa [Fencing.granted, claimedEpochs] using ih

theorem bumps_move {a : AgentId} {c : Call} (h : (c.outcome S a).Bumps) : (c.move S a).Bumps := by
  unfold Call.move
  cases ho : c.outcome S a <;> rw [ho] at h <;> first | exact h.elim | trivial

/-- **Lease fencing.** Along every run of lease calls: a call that claims or revokes raises the
agent's epoch and no other call changes it; successful claims return growing epochs; a renewal
succeeds exactly with the current epoch, so never with one that a claim or a revoke has passed;
and a call that is refused changes nothing. -/
theorem lease_fencing (S : Settings) (db : Database) (a : AgentId)
    (calls : List (Input × LeaseStmt)) :
    (∀ c ∈ steps S db calls, (c.outcome S a).Bumps →
      ∃ e₀ e₁, epoch c.before a = some e₀ ∧ epoch (c.after S) a = some e₁ ∧ e₀ < e₁) ∧
    (∀ c ∈ steps S db calls, ¬ (c.outcome S a).Bumps →
      epoch (c.after S) a = epoch c.before a) ∧
    (claimedEpochs S a (steps S db calls)).Pairwise (· < ·) ∧
    (∀ c ∈ steps S db calls, ∀ e, c.stmt = .renew a e →
      (c.outcome S a = .renewed e ↔ epoch c.before a = some e)) ∧
    (∀ pre c mid d post e, steps S db calls = pre ++ c :: (mid ++ d :: post) →
      c.outcome S a = .claimed e → (∃ b ∈ mid, (b.outcome S a).Bumps) →
      d.outcome S a ≠ .renewed e) ∧
    (∀ c ∈ steps S db calls, (c.outcome S a = .refused ∨ ∃ e, c.outcome S a = .fenced e) →
      c.after S = c.before) := by
  refine ⟨fun c _ hb => ?_, fun c _ hb => ?_, ?_, fun c _ e hc => ?_, ?_, fun c _ ho => ?_⟩
  · have hlaw := law (S := S) a c
    unfold Law at hlaw
    cases ho : c.outcome S a with
    | claimed e =>
      rw [ho] at hlaw
      obtain ⟨e₀, h0, h1, hlt⟩ := hlaw
      exact ⟨e₀, e, h0, h1, hlt⟩
    | revoked =>
      rw [ho] at hlaw
      exact hlaw
    | _ => rw [ho] at hb; exact hb.elim
  · have hlaw := law (S := S) a c
    unfold Law at hlaw
    cases ho : c.outcome S a with
    | claimed e => rw [ho] at hb; exact (hb trivial).elim
    | revoked => rw [ho] at hb; exact (hb trivial).elim
    | renewed e => rw [ho] at hlaw; rw [hlaw.1, hlaw.2]
    | refused => rw [ho] at hlaw; rw [hlaw]
    | fenced e => rw [ho] at hlaw; rw [hlaw.2]
    | other => rw [ho] at hlaw; exact hlaw
  · rw [← granted_move]
    exact (steps_run a calls db).granted_pairwise
  · have hlaw := law (S := S) a c
    obtain ⟨i, stmt, before⟩ := c
    cases hc
    unfold Law at hlaw
    simp only [Call.outcome, LeaseStmt.target, if_true] at hlaw ⊢
    cases hans : Call.answer S ⟨i, .renew a e, before⟩ with
    | false =>
      rw [hans] at hlaw
      exact ⟨fun h => (by cases h), fun h => (hlaw.1 h).elim⟩
    | true =>
      rw [hans] at hlaw
      exact ⟨fun _ => hlaw.1, fun _ => rfl⟩
  · intro pre c mid d post e hsteps hc hb hd
    have hrun := steps_run (S := S) a calls db
    have hcm : c.move S a = .grant e := by unfold Call.move; rw [hc]
    have hdm : d.move S a = .check e true := by unfold Call.move; rw [hd]
    rw [hsteps] at hrun
    simp only [List.map_append, List.map_cons, hcm, hdm] at hrun
    obtain ⟨b, hmem, hbump⟩ := hb
    have := hrun.fenced ⟨b.move S a, List.mem_map_of_mem hmem, bumps_move hbump⟩
    cases this
  · have hlaw := law (S := S) a c
    unfold Law at hlaw
    rcases ho with ho | ⟨e, ho⟩
    · rw [ho] at hlaw; exact hlaw
    · rw [ho] at hlaw; exact hlaw.2

end Lease
end Rekuest
