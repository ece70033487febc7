import Rekuest.Footprint
import Rekuest.Lease.Rows

/-!
# Rekuest.Lease.Writers

The lease columns beside the other writers of an agent row. `block`, `unblock`, `update_agent` and
`pin_agent` load a row, change one field and save every column back; `ensure_agent` and
`implement_agent` save the columns they name.

* `RowCall`: the lease operations, and the other writers.
* `OnlyLeaseWrites`: after every prefix of a run the lease columns are what the lease operations
  of that prefix alone leave.
* `Unclobbered`: a whole-row save finds the lease columns it loaded.
* `lease_columns_written_by_lease`: true of every run of unclobbered steps.
  `block_undoes_claim`: not of every run.
-/

namespace Rekuest
namespace Lease
namespace Writers

open Interleave Interleave.Prog

inductive LeaseOp where
  | claim (agent : AgentId) (connection : Option ConnectionId) (session : Option SessionId)
    (force : Bool)
  | renew (agent : AgentId) (leaseEpoch : Int)
  | release (agent : AgentId) (connection : Option ConnectionId)
  | revoke (agent : AgentId)
  deriving DecidableEq

def LeaseOp.code : LeaseOp → Handler Unit
  | claim agent connection session force =>
    discard (PersistBackend.claimLeaseSync agent connection session force)
  | renew agent leaseEpoch => discard (PersistBackend.renewAgentLease agent leaseEpoch)
  | release agent connection => discard (PersistBackend.releaseLease agent connection)
  | revoke agent => discard (PersistBackend.revokeLeaseSync agent)

def LeaseOp.target : LeaseOp → AgentId
  | claim agent .. => agent
  | renew agent _ => agent
  | release agent _ => agent
  | revoke agent => agent

inductive RowCall where
  | lease (op : LeaseOp)
  | other (c : AgentCall)
  deriving DecidableEq

def RowCall.code : RowCall → Handler Unit
  | lease op => op.code
  | other c => c.code

abbrev Proc := RowCall × Nat

abbrev Conf := Sys Statements Error Unit Proc World

/-- The lease operations on agent `a`. -/
def isLeaseOp (a : AgentId) (p : Proc) : Bool :=
  match p.1 with
  | .lease op => op.target = a
  | .other _ => false

variable {S : Settings} {a : AgentId}

/-- After every prefix of the run, the lease columns are what the lease operations of the prefix
alone would have left, and no other step of it changes them. -/
def OnlyLeaseWrites (S : Settings) (a : AgentId) (c : Conf) (sched : List (Proc × Input)) : Prop :=
  (∀ pre, pre <+: sched → leaseOf a (c.run (exec S) pre).shared =
    leaseOf a (c.run (exec S) (pre.filter fun e => isLeaseOp a e.1)).shared) ∧
  ∀ pre e, pre ++ [e] <+: sched → isLeaseOp a e.1 = false →
    leaseOf a (c.run (exec S) (pre ++ [e])).shared = leaseOf a (c.run (exec S) pre).shared

/-- The statement is not a whole-row save that would change the agent's lease columns. -/
def keepsLease (a : AgentId) (w : World) : Stmt → Bool
  | .agent (.save b row) => b != a || leaseOf a w == some row.toLeaseColumns
  | _ => true

/-- If the step is a whole-row save, the row's lease columns are still those it loaded. -/
def Unclobbered (a : AgentId) (c : Conf) (e : Proc × Input) : Prop :=
  ∀ st ∈ (c.procs e.1).next?, keepsLease a c.shared st = true

instance (c : Conf) (e : Proc × Input) : Decidable (Unclobbered a c e) :=
  inferInstanceAs (Decidable (∀ st ∈ (c.procs e.1).next?, keepsLease a c.shared st = true))

/-! ## Statements -/

/-- A write to an agent row leaves the lease columns of an agent that is there alone, unless it
is a whole-row save of other ones. -/
theorem leaseOf_agent {i : Input} {w : World} {c : AgentStmt} {row : LeaseColumns}
    (ha : leaseOf a w = some row) (hk : keepsLease a w (.agent c) = true) :
    leaseOf a (exec S i (.agent c) w).2 = some row := by
  obtain ⟨agent, hg, hrow⟩ := Option.map_eq_some_iff.mp ha
  have hother : ∀ (b : AgentId) (f : Agent → Agent),
      (∀ agent, (f agent).toLeaseColumns = agent.toLeaseColumns) →
      ((w.db.agents.modify b f).get a).map (·.toLeaseColumns) = some row := by
    intro b f hf
    rw [Table.get_modify]
    split
    · rw [hg]; exact congrArg some ((hf agent).trans hrow)
    · rw [hg]; exact congrArg some hrow
  have hinsert : ∀ new : Agent,
      ((w.db.agents.insert new).get a).map (·.toLeaseColumns) = some row := by
    intro new
    rw [Table.get_insert_of_get hg]
    exact congrArg some hrow
  cases c with
  | save b new =>
    show ((w.db.agents.modify b fun _ => new).get a).map (·.toLeaseColumns) = some row
    rw [Table.get_modify]
    split
    · rename_i hb
      subst hb
      rw [hg]
      simp only [keepsLease, bne_self_eq_false, Bool.false_or, ha] at hk
      have hnew : row = new.toLeaseColumns := by simpa using hk
      exact congrArg some hnew.symm
    · rw [hg]; exact congrArg some hrow
  | saveTransport b kind hookUrl hookUrlSecret => exact hother b _ fun _ => rfl
  | getOrCreate identity defaults =>
    simp only [exec, AgentStmt.exec]
    cases w.db.agentOf? identity with
    | none => exact hinsert _
    | some b => exact ha
  | updateOrCreate identity defaults hash =>
    simp only [exec, AgentStmt.exec]
    cases w.db.agentOf? identity with
    | none => exact hinsert _
    | some b => exact hother b _ fun _ => rfl
  | pin b user on => exact ha

/-- A statement of a lease operation sees and changes no more than the lease columns. -/
theorem respects_lease {l : LeaseStmt} (hl : l.target = a) :
    Sys.Respects (exec S) (leaseOf a) (.lease l) := by
  intro i w w' h
  rw [leaseOf_lease, leaseOf_lease, h]
  refine ⟨?_, rfl⟩
  subst hl
  show (l.exec S i w.db).1 = (l.exec S i w'.db).1
  unfold leaseOf at h
  simp only [LeaseStmt.exec]
  cases hg : w.db.agents.get l.target with
  | none =>
    cases hg' : w'.db.agents.get l.target with
    | none => rfl
    | some agent' => rw [hg, hg'] at h; cases h
  | some agent =>
    cases hg' : w'.db.agents.get l.target with
    | none => rw [hg, hg'] at h; cases h
    | some agent' =>
      rw [hg, hg'] at h
      have hrow : agent.toLeaseColumns = agent'.toLeaseColumns := Option.some.inj h
      simp only [hrow]

theorem respects_read : Sys.Respects (exec S) (leaseOf a) (.read (.lease a)) :=
  fun _ _ _ h => ⟨h, h⟩

/-! ## Processes -/

/-- What a lease operation on agent `b` issues. -/
def OnLease (b : AgentId) (st : Stmt) : Prop :=
  st = .read (.lease b) ∨ ∃ l, st = .lease l ∧ l.target = b

def NoLease (st : Stmt) : Prop := ∀ l, st ≠ .lease l

theorem OnLease.respects {st : Stmt} (h : OnLease a st) : Sys.Respects (exec S) (leaseOf a) st := by
  rcases h with rfl | ⟨l, rfl, hl⟩
  · exact respects_read
  · exact respects_lease hl

theorem leaseOp_issues (op : LeaseOp) : (op.code).Issues (OnLease op.target) := by
  cases op with
  | claim agent connection session force =>
    refine discard_built Issues.compositional ?_
    exact Issues.issue_bind (.inr ⟨_, rfl, rfl⟩) fun _ => orDoesNotExist_built Issues.compositional
  | renew agent leaseEpoch =>
    exact discard_built Issues.compositional (Issues.issue (.inr ⟨_, rfl, rfl⟩))
  | revoke agent =>
    refine discard_built Issues.compositional ?_
    exact Issues.issue_bind (.inr ⟨_, rfl, rfl⟩) fun _ => orDoesNotExist_built Issues.compositional
  | release agent connection =>
    refine discard_built Issues.compositional (Issues.issue_bind (.inl rfl) fun row =>
      Issues.bind (orDoesNotExist_built Issues.compositional) fun row => ?_)
    split
    · trivial
    · exact Issues.issue_bind (.inr ⟨_, rfl, rfl⟩) fun _ => trivial

/-- A handler that loads the agent row first. -/
theorem withAgent_issues {id : AgentId} {f : Agent → Handler Unit}
    (hf : ∀ agent, (f agent).Issues NoLease) :
    Prog.Issues (L := Statements) NoLease
      ((getAgent id).bind fun row => (orDoesNotExist "Agent" row).bind f) :=
  Issues.issue_bind nofun fun _ => Issues.bind (orDoesNotExist_built Issues.compositional) hf

theorem agentCall_issues (c : AgentCall) : (c.code).Issues NoLease := by
  cases c with
  | block agent reason =>
    refine withAgent_issues fun row => Issues.issue_bind nofun fun _ => ?_
    exact broadcast_built Issues.compositional (.issue nofun) (.issue nofun) (.issue nofun)
  | unblock agent => exact withAgent_issues fun row => Issues.issue nofun
  | updateAgent agent name => exact withAgent_issues fun row => Issues.issue nofun
  | pinAgent agent user pin =>
    exact withAgent_issues fun row => Issues.issue_bind nofun fun _ => Issues.issue nofun
  | ensureAgent identity defaults kind hookUrl hookUrlSecret =>
    refine discard_built Issues.compositional (Issues.issue_bind nofun fun id => ?_)
    split
    · exact Issues.issue_bind nofun fun _ => trivial
    · trivial
  | implementAgent identity defaults hash =>
    exact discard_built Issues.compositional
      (Issues.issue_bind nofun fun fresh => Issues.issue nofun)

/-- What each process can have left to run. -/
def Typed (p : Proc) (prog : Handler Unit) : Prop :=
  match p.1 with
  | .lease op => prog.Issues (OnLease op.target)
  | .other _ => prog.Issues NoLease

theorem typed_start (p : Proc) : Typed p p.1.code := by
  obtain ⟨call, n⟩ := p
  cases call with
  | lease op => exact leaseOp_issues op
  | other c => exact agentCall_issues c

theorem Typed.step {p : Proc} {st : Stmt} {k : st.Ans → Handler Unit}
    (h : Typed p (.stmt st k)) (ans : st.Ans) : Typed p (k ans) := by
  unfold Typed at h ⊢
  cases hc : p.1 with
  | lease op => rw [hc] at h; exact h.2 ans
  | other c => rw [hc] at h; exact h.2 ans

/-! ## Runs -/

structure Inv (a : AgentId) (c : Conf) : Prop where
  typed : ∀ p, Typed p (c.procs p)
  there : ∃ row, leaseOf a c.shared = some row

/-- A step that is not one of the agent's lease operations leaves its lease columns alone. -/
theorem Inv.frame {c : Conf} {e : Proc × Input} (h : Inv a c) (hu : Unclobbered a c e)
    (he : isLeaseOp a e.1 = false) :
    leaseOf a (c.step (exec S) e).shared = leaseOf a c.shared := by
  obtain ⟨row, hrow⟩ := h.there
  have ht := h.typed e.1
  rcases Sys.step_cases (exec S) c e with hs | ⟨st, k, hp, hs⟩
  · rw [hs]
  rw [hs, Sys.put_shared]
  rw [hp] at ht
  have hk := hu st (by rw [hp]; rfl)
  cases hc : e.1.1 with
  | lease op =>
    have hne : ¬ op.target = a := by simpa [isLeaseOp, hc] using he
    unfold Typed at ht
    rw [hc] at ht
    rcases ht.1 with rfl | ⟨l, rfl, hl⟩
    · rfl
    · rw [leaseOf_lease, if_neg]
      rintro rfl
      exact hne hl.symm
  | other call =>
    unfold Typed at ht
    rw [hc] at ht
    by_cases hagent : ∃ s, st = .agent s
    · obtain ⟨s, rfl⟩ := hagent
      rw [leaseOf_agent hrow hk, hrow]
    · exact leaseOf_exec ht.1 fun s hst => hagent ⟨s, hst⟩

theorem Inv.step {c : Conf} {e : Proc × Input} (h : Inv a c) (hu : Unclobbered a c e) :
    Inv a (c.step (exec S) e) := by
  refine ⟨fun p => ?_, ?_⟩
  · rcases Sys.step_cases (exec S) c e with hs | ⟨st, k, hp, hs⟩
    · rw [hs]; exact h.typed p
    · rw [hs]
      by_cases hpe : p = e.1
      · subst hpe
        rw [Sys.put_self]
        exact (hp ▸ h.typed e.1).step _
      · rw [Sys.put_other _ hpe]; exact h.typed p
  · obtain ⟨row, hrow⟩ := h.there
    cases he : isLeaseOp a e.1 with
    | false => exact ⟨row, (h.frame hu he).trans hrow⟩
    | true =>
      rcases Sys.step_cases (exec S) c e with hs | ⟨st, k, hp, hs⟩
      · rw [hs]; exact ⟨row, hrow⟩
      rw [hs, Sys.put_shared]
      have ht := h.typed e.1
      rw [hp] at ht
      cases hc : e.1.1 with
      | other call => simp [isLeaseOp, hc] at he
      | lease op =>
        unfold Typed at ht
        rw [hc] at ht
        rcases ht.1 with rfl | ⟨l, rfl, hl⟩
        · exact ⟨row, hrow⟩
        · rw [leaseOf_lease, hrow]
          split
          · exact ⟨_, rfl⟩
          · exact ⟨row, rfl⟩

theorem inv_start {w : World} (ha : ∃ row, leaseOf a w = some row) :
    Inv a (start RowCall.code w) := ⟨typed_start, ha⟩

theorem agree_start {w : World} : Sys.Agree (exec S) (leaseOf a) (isLeaseOp a)
    (start RowCall.code w) (start RowCall.code w) where
  shared := rfl
  procs _ _ := rfl
  within p hp := by
    have ht := typed_start p
    unfold Typed at ht
    cases hc : p.1 with
    | other call => simp [isLeaseOp, hc] at hp
    | lease op =>
      have hop : op.target = a := by simpa [isLeaseOp, hc] using hp
      rw [hc] at ht
      show (RowCall.code p.1).Issues _
      rw [hc]
      exact ht.mono fun st hst => OnLease.respects (hop ▸ hst)

/-- **Only lease transitions write the lease columns**, in every run in which each whole-row save
finds the lease columns that its writer loaded: after every prefix they are what the prefix's
lease operations alone would have left. -/
theorem lease_columns_written_by_lease (S : Settings) (a : AgentId) (w : World)
    (sched : List (Proc × Input)) (ha : (w.db.agents.get a).isSome)
    (hu : Along (Sys.step (exec S)) (Unclobbered a) (start RowCall.code w) sched) :
    OnlyLeaseWrites S a (start RowCall.code w) sched := by
  obtain ⟨agent, hg⟩ := Option.isSome_iff_exists.mp ha
  have hinv : Inv a (start RowCall.code w) :=
    inv_start ⟨agent.toLeaseColumns, by simp [leaseOf, hg]⟩
  have hall := hu.with_inv (fun c e hc he => Inv.step hc he) hinv
  refine ⟨fun pre hpre => ?_, fun pre e hpre he => ?_⟩
  · have hframe := (hall.of_prefix hpre).mono fun c e hce (he : isLeaseOp a e.1 = false) =>
      hce.1.frame (S := S) hce.2 he
    exact (Sys.run_filter agree_start hframe).shared
  · obtain ⟨_, hlast⟩ := along_append.mp (hall.of_prefix hpre)
    rw [Sys.run_append]
    exact hlast.1.1.frame hlast.1.2 he

section Race

def claims : List (Proc × Input) := [((.lease (.claim 1 (some 1) none false), 0), default)]

def blocks (steps : Nat) : List (Proc × Input) :=
  List.replicate steps ((.other (.block 1 none), 0), default)

/-- The agent is blocked before it connects. -/
theorem lease_columns_written_by_lease_in_turn :
    OnlyLeaseWrites {} 1 (start RowCall.code idleWorld) (blocks 4 ++ claims) :=
  lease_columns_written_by_lease {} 1 idleWorld _ rfl (by decide +kernel)

/-- `block` loads the row, a connection claims the lease, and `block` saves the row back: the
claim is undone. -/
theorem block_undoes_claim :
    ¬ OnlyLeaseWrites {} 1 (start RowCall.code idleWorld) (blocks 1 ++ claims ++ blocks 1) := by
  intro h
  have hcolumns := h.1 _ (List.prefix_rfl)
  have hleft : leaseOf 1 ((start RowCall.code idleWorld).run (exec {})
      (blocks 1 ++ claims ++ blocks 1)).shared = some {} := by decide +kernel
  have hclaim : leaseOf 1 ((start RowCall.code idleWorld).run (exec {})
      ((blocks 1 ++ claims ++ blocks 1).filter fun e => isLeaseOp 1 e.1)).shared =
        some { leaseEpoch := 1, connected := true, lastSeen := some 0,
               activeConnectionId := some 1 } := by decide +kernel
  rw [hleft, hclaim] at hcolumns
  cases hcolumns

end Race

end Writers
end Lease
end Rekuest
