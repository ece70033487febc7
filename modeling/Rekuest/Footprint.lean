import Rekuest.Calls

/-!
# Rekuest.Footprint

What the handlers are built from, for the properties of programs that sequencing keeps.

* `Sweeps Q`: `Q` holds of some statements and of the reconciliation of one agent. Then it holds of
  every trigger of reconciliation. `Reconciles Q`: of the orphan cascade, so of that reconciliation.
* `Built Q`: and of the claim and the sends. Then it holds of every handler of a connection.
* `Stmt.InCascade`: the statements of the orphan cascade: no lease, no agent row, no task save.
* `Stmt.NoRelease`: any statement but a release and a write to an agent row; every handler of a
  connection stays within, except the disconnect.
-/

namespace Rekuest

open Interleave Interleave.Prog

variable {Q : (α : Type) → Handler α → Prop} {P : Stmt → Prop} {α : Type}

/-! ## Programs -/

theorem orDoesNotExist_built (hQ : Compositional Q) {model : String} {x : Option α} :
    Q α (orDoesNotExist model x) := by
  cases x with
  | none => exact hQ.fail _
  | some a => exact hQ.ret a

theorem discard_built (hQ : Compositional Q) {p : Handler α} (hp : Q α p) :
    Q Unit (discard p) :=
  hQ.bind hp fun _ => hQ.ret ()

theorem createEvent_built (hQ : Compositional Q) {event : TaskEvent}
    (h : Q Bool (issueTask (.createEvent event))) : Q Unit (createEvent event) := by
  refine hQ.bind h fun stored => ?_
  cases stored with
  | false => exact hQ.fail _
  | true => exact hQ.ret ()

theorem broadcast_built (hQ : Compositional Q) {agent : AgentId} {m : ToAgentMessage}
    (hr : Q _ (getAgent agent))
    (hpush : Q Unit (Prog.issue (L := Statements) (.deliver (.push agent m))))
    (hpost : Q Unit (Prog.issue (L := Statements) (.deliver (.post agent m)))) :
    Q Unit (broadcast agent m) := by
  refine hQ.bind hr fun row => hQ.bind (orDoesNotExist_built hQ) fun row => ?_
  cases row.kind with
  | websocket => exact hpush
  | webhook =>
    dsimp only
    split
    · exact hpost
    · exact hQ.ret ()

namespace PersistBackend

/-- The in-flight query, and the cascade over its rows. -/
def orphanCascade (server : ServerId) (agent : AgentId) : Handler Unit :=
  (ask (.inFlight agent)).bind fun rows => failAndCascadeInflight server rows

theorem reconcileOrphanedExecutorWork_eq {server : ServerId} {agent : AgentId} :
    reconcileOrphanedExecutorWork server agent =
      .stmt (.read (.agentIsLive agent)) fun live => match live with
        | none => .fail (.doesNotExist "Agent")
        | some true => .ret ()
        | some false => orphanCascade server agent := by
  simp only [reconcileOrphanedExecutorWork, ask, bind_eq, issue, stmt_bind, ret_bind]
  congr 1
  funext live
  cases live with
  | none => rfl
  | some live => cases live <;> rfl

/-- After an accepted claim: what a fresh session and what a surviving one does. -/
def afterClaim (server : ServerId) (agent : AgentId) (session : Option SessionId)
    (answer : ClaimAnswer) : Handler LeaseClaim :=
  if isFreshSession answer.priorSession session then
    (orphanCascade server agent).bind fun _ => .ret
      { claimed := true, epoch := answer.epoch, displacedIncumbent := answer.displacedIncumbent }
  else
    (ask (.inFlight agent)).bind fun rows => .ret
      { claimed := true, epoch := answer.epoch, tasks := rows.map (·.id)
        displacedIncumbent := answer.displacedIncumbent }

theorem onAgentConnected_eq {server : ServerId} {agent : AgentId}
    {connection : Option ConnectionId} {session : Option SessionId} {force : Bool} :
    onAgentConnected server agent connection session force =
      (claimLeaseSync agent connection session force).bind fun answer =>
        if answer.claimed = true then
          (cancelTimer server .executorGrace agent).bind fun _ =>
            afterClaim server agent session answer
        else .ret { claimed := false } := by
  simp only [onAgentConnected, bind_eq]
  congr 1
  funext answer
  cases answer.claimed with
  | false => rfl
  | true =>
    simp only [Bool.not_true, Bool.false_eq_true, if_false, if_true]
    congr 1
    funext _
    unfold afterClaim orphanCascade
    split
    · rw [bind_assoc]
      rfl
    · rfl

/-! ## Handlers of a connection -/

/-- The property holds of what the triggers of reconciliation are built from, the reconciliation of
one agent in one piece among it. -/
structure Sweeps (Q : (α : Type) → Handler α → Prop) : Prop extends
    Compositional (L := Statements) (ε := Error) Q where
  stale : Q _ (ask .staleAgents)
  orphaned : Q _ (ask .orphanedExecutors)
  lease : ∀ agent, Q _ (getLease agent)
  timer : ∀ c, Q Unit (Prog.issue (L := Statements) (.timer c))
  revoke : ∀ agent, Q (Option Bool) (Prog.issue (L := Statements) (.lease (.revoke agent)))
  reconcile : ∀ server agent, Q Unit (reconcileOrphanedExecutorWork server agent)

namespace Sweeps

variable (hQ : Sweeps Q)
include hQ

theorem revokeLeaseSync {agent : AgentId} : Q Bool (revokeLeaseSync agent) :=
  hQ.bind (hQ.revoke agent) fun _ => orDoesNotExist_built hQ.toCompositional

theorem healAgents {server : ServerId} {agents : List AgentId} :
    Q Nat (healAgents server agents) := by
  induction agents with
  | nil => exact hQ.ret 0
  | cons agent agents ih =>
    refine hQ.bind hQ.revokeLeaseSync fun won => ?_
    cases won with
    | false => exact ih
    | true =>
      exact hQ.bind (hQ.reconcile server agent) fun _ => hQ.bind ih fun n => hQ.ret (n + 1)

theorem reconcileStaleAgents {server : ServerId} : Q Nat (reconcileStaleAgents server) :=
  hQ.bind hQ.stale fun _ => hQ.healAgents

theorem reconcileTasks {server : ServerId} : Q Unit (reconcileTasks server) :=
  hQ.bind hQ.reconcileStaleAgents fun _ => hQ.bind hQ.orphaned fun _ =>
    hQ.forEach fun _ _ => hQ.reconcile server _

/-- Every handler of a connection but the registration and the renewal. -/
theorem connectionCall {S : Settings} {c : ConnectionCall}
    (hregister : ∀ server agent connection session force,
      c = .register server agent connection session force →
        Q (Option LeaseClaim) (onRegister server agent connection session force))
    (hrenew : ∀ agent leaseEpoch, c = .renew agent leaseEpoch →
      Q Bool (renewAgentLease agent leaseEpoch))
    (hdisconnect : ∀ server agent connection, c = .disconnect server agent connection →
      Q Unit (onAgentDisconnected S server agent (some connection))) : Q Unit (c.code S) := by
  cases c with
  | register server agent connection session force =>
    exact discard_built hQ.toCompositional (hregister server agent connection session force rfl)
  | renew agent leaseEpoch =>
    exact discard_built hQ.toCompositional (hrenew agent leaseEpoch rfl)
  | disconnect server agent connection => exact hdisconnect server agent connection rfl
  | graceExpired server agent => exact hQ.reconcile server agent
  | sweep server => exact discard_built hQ.toCompositional hQ.reconcileStaleAgents
  | reconcileTasks server => exact hQ.reconcileTasks

theorem onAgentDisconnected {S : Settings} {server : ServerId} {agent : AgentId}
    {connection : Option ConnectionId}
    (hrelease : Q Unit (Prog.issue (L := Statements) (.lease (.release agent)))) :
    Q Unit (onAgentDisconnected S server agent connection) := by
  have hguard : Q Bool (releaseLease agent connection) := by
    refine hQ.bind (hQ.lease agent) fun row =>
      hQ.bind (orDoesNotExist_built hQ.toCompositional) fun row => ?_
    split
    · exact hQ.ret false
    · exact hQ.bind hrelease fun _ => hQ.ret true
  refine hQ.bind hguard fun released => ?_
  cases released with
  | false => exact hQ.ret ()
  | true =>
    show Q Unit (if S.graceSeconds ≤ 0 then _ else _)
    split
    · exact hQ.reconcile server agent
    · exact hQ.timer _

end Sweeps

/-- The property holds of what the reconciliation of one agent is built from too. -/
structure Reconciles (Q : (α : Type) → Handler α → Prop) : Prop extends
    Compositional (L := Statements) (ε := Error) Q where
  read : ∀ q : Query, Q q.Ans (ask q)
  timer : ∀ c, Q Unit (Prog.issue (L := Statements) (.timer c))
  revoke : ∀ agent, Q (Option Bool) (Prog.issue (L := Statements) (.lease (.revoke agent)))
  cascade : ∀ server agent, Q Unit (orphanCascade server agent)

namespace Reconciles

variable (hQ : Reconciles Q)
include hQ

theorem sweeps : Sweeps Q where
  toCompositional := hQ.toCompositional
  stale := hQ.read .staleAgents
  orphaned := hQ.read .orphanedExecutors
  lease agent := hQ.read (.lease agent)
  timer := hQ.timer
  revoke := hQ.revoke
  reconcile server agent := by
    rw [reconcileOrphanedExecutorWork_eq]
    refine hQ.bind (hQ.read (.agentIsLive agent)) fun live => ?_
    match live with
    | none => exact hQ.fail _
    | some true => exact hQ.ret ()
    | some false => exact hQ.cascade server agent

/-- A connection that claims its lease. -/
theorem onAgentConnected {server : ServerId} {agent : AgentId} {connection : Option ConnectionId}
    {session : Option SessionId} {force : Bool}
    (hclaim : Q (Option ClaimAnswer) (Prog.issue (L := Statements)
      (.lease (.claim agent connection session force)))) :
    Q LeaseClaim (onAgentConnected server agent connection session force) := by
  rw [onAgentConnected_eq]
  refine hQ.bind (hQ.bind hclaim fun _ => orDoesNotExist_built hQ.toCompositional) fun answer => ?_
  split
  · refine hQ.bind (hQ.timer _) fun _ => ?_
    unfold afterClaim
    split
    · exact hQ.bind (hQ.cascade server agent) fun _ => hQ.ret _
    · exact hQ.bind (hQ.read (.inFlight agent)) fun _ => hQ.ret _
  · exact hQ.ret _

theorem onRegister {server : ServerId} {agent : AgentId} {connection : ConnectionId}
    {session : Option SessionId} {force : Bool}
    (hinit : ∀ inquiries, Q Unit (send connection (.init agent inquiries)))
    (hrefuse : ∀ error, Q Unit (send connection (.protocolError error)))
    (hcaller : ∀ identity, Q CallerId (Prog.issue (L := Statements) (.getOrCreateCaller identity)))
    (hclaim : Q (Option ClaimAnswer) (Prog.issue (L := Statements)
      (.lease (.claim agent (some connection) session force)))) :
    Q (Option LeaseClaim) (onRegister server agent connection session force) := by
  refine hQ.bind (hQ.read (.agent agent)) fun row =>
    hQ.bind (orDoesNotExist_built hQ.toCompositional) fun row => ?_
  split
  · exact hQ.ret none
  refine hQ.bind (hcaller _) fun _ => hQ.bind (hQ.onAgentConnected hclaim) fun claim => ?_
  split
  · exact hQ.bind (hrefuse _) fun _ => hQ.ret none
  · exact hQ.bind (hinit _) fun _ => hQ.ret _

end Reconciles

/-- The property holds of what the handlers of a connection are built from. -/
structure Built (Q : (α : Type) → Handler α → Prop) : Prop extends Reconciles Q where
  send : ∀ connection m, Q Unit (send connection m)
  caller : ∀ identity, Q CallerId (Prog.issue (L := Statements) (.getOrCreateCaller identity))
  claim : ∀ agent connection session force,
    Q (Option ClaimAnswer) (Prog.issue (L := Statements)
      (.lease (.claim agent connection session force)))

namespace Built

variable (hQ : Built Q)
include hQ

theorem onRegister {server : ServerId} {agent : AgentId} {connection : ConnectionId}
    {session : Option SessionId} {force : Bool} :
    Q (Option LeaseClaim) (onRegister server agent connection session force) :=
  hQ.toReconciles.onRegister (fun _ => hQ.send connection _) (fun _ => hQ.send connection _) hQ.caller
    (hQ.claim agent (some connection) session force)

/-- Every handler of a connection but the renewal and the disconnect. -/
theorem connectionCall {S : Settings} {c : ConnectionCall}
    (hrenew : ∀ agent leaseEpoch, c = .renew agent leaseEpoch →
      Q Bool (renewAgentLease agent leaseEpoch))
    (hdisconnect : ∀ server agent connection, c = .disconnect server agent connection →
      Q Unit (onAgentDisconnected S server agent (some connection))) : Q Unit (c.code S) :=
  hQ.sweeps.connectionCall (fun _ _ _ _ _ _ => hQ.onRegister) hrenew hdisconnect

end Built

/-! ## The statements of the cascade -/

theorem claimTaskTransitionSync_built (hQ : Compositional Q) {id : TaskId}
    {toKind : TaskEventKind} {markDone : Bool} {skip : Option TaskEventKind}
    (h : Q (Option Bool) (issueTask (.claimTransition id toKind markDone skip))) :
    Q Bool (claimTaskTransitionSync id toKind markDone skip) :=
  hQ.bind h fun _ => orDoesNotExist_built hQ

/-- The rebuilt message names the task it was rebuilt for. -/
theorem buildRedispatchAssignSync_bind_built (hQ : Compositional Q) {β : Type} {id : TaskId}
    {f : Option Assign → Handler β} (hsource : Q _ (ask (.redispatchSource id)))
    (hmint : ∀ ctx, Q _ (ask (.mintLoaded id ctx))) (hnone : Q β (f none))
    (hsome : ∀ assign, assign.task = id → Q β (f (some assign))) :
    Q β ((buildRedispatchAssignSync id).bind f) := by
  simp only [buildRedispatchAssignSync, bind_eq, bind_assoc]
  refine hQ.bind hsource fun source =>
    hQ.bind (orDoesNotExist_built hQ) fun source => ?_
  split
  · rw [bind_assoc]
    refine hQ.bind (hmint _) fun token => ?_
    cases token with
    | error e => exact hnone
    | ok token => exact hsome _ rfl
  · exact hnone

/-- A round of the cascade, from its three outcomes. -/
theorem failAndCascade_built (hQ : Compositional Q) {server : ServerId} {row : InFlight}
    (htimer : Q Unit (cancelTimer server .autoInterrupt row.id))
    (hsource : Q _ (ask (.redispatchSource row.id)))
    (hmint : ∀ ctx, Q _ (ask (.mintLoaded row.id ctx)))
    (hfail : Q Unit (failPhysicalTask row.id)) (hdisconnect : Q Unit (disconnectTask row.id))
    (hrequeue : ∀ assign, assign.task = row.id →
      Q Unit (requeueTask row.id row.task.agent assign)) :
    Q Unit (failAndCascade server row) := by
  refine hQ.bind htimer fun _ => ?_
  dsimp only
  split
  · exact hfail
  split
  · exact buildRedispatchAssignSync_bind_built hQ hsource hmint hdisconnect hrequeue
  · exact hdisconnect

theorem orphanCascade_built (hQ : Compositional Q) {server : ServerId} {agent : AgentId}
    (hread : Q _ (ask (.inFlight agent))) (hround : ∀ row, Q Unit (failAndCascade server row)) :
    Q Unit (orphanCascade server agent) :=
  hQ.bind hread fun _ => hQ.forEach fun row _ => hround row

/-- A claimed transition and its event. -/
theorem claimAndRecord_issues {id : TaskId} {toKind : TaskEventKind} {markDone : Bool}
    {skip : Option TaskEventKind} {f : Bool → Handler Unit}
    (h : P (.task (.claimTransition id toKind markDone skip)))
    (hlost : Prog.Issues (L := Statements) P (f false))
    (hwon : Prog.Issues (L := Statements) P (f true)) :
    Prog.Issues (L := Statements) P
      ((claimTaskTransitionSync id toKind markDone skip).bind f) := by
  refine Issues.compositional.bind
    (claimTaskTransitionSync_built Issues.compositional (.issue h)) fun won => ?_
  cases won with
  | false => exact hlost
  | true => exact hwon

end PersistBackend

def Stmt.InCascade : Stmt → Prop
  | .read (.redispatchSource _) => True
  | .read (.mintLoaded _ _) => True
  | .read (.agent _) => True
  | .task (.createEvent _) => True
  | .task (.claimTransition ..) => True
  | .deliver _ => True
  | .timer _ => True
  | _ => False

def Stmt.NoRelease : Stmt → Prop
  | .agent _ => False
  | .lease (.release _) => False
  | _ => True

theorem Stmt.InCascade.noRelease {c : Stmt} (h : c.InCascade) : c.NoRelease := by
  cases c with
  | lease c => exact h.elim
  | agent c => exact h.elim
  | _ => trivial

/-- No agent row is written but for its lease columns. -/
def Stmt.NoAgentRow : Stmt → Prop
  | .agent _ => False
  | _ => True

def Stmt.IsRead : Stmt → Prop
  | .read _ => True
  | _ => False

def DeliverStmt.message : DeliverStmt → ToAgentMessage
  | .push _ m => m
  | .post _ m => m
  | .send _ m => m

/-- The message neither hands out work nor lists it. -/
def ToAgentMessage.quiet : ToAgentMessage → Bool
  | .assign _ => false
  | .init .. => false
  | _ => true

/-- The statement creates no task, ends none, and hands out no work. -/
def Stmt.Quiet : Stmt → Prop
  | .task (.create _) => False
  | .task (.createEvent event) => event.kind.isTerminal = false
  | .task (.save _ u) => u.latestEventKind = none ∧ u.done = false
  | .task (.claimTransition ..) => False
  | .deliver c => c.message.quiet = true
  | _ => True

namespace PersistBackend

/-- A round of the cascade stays within what its parts stay within. -/
theorem failAndCascade_within {P : Stmt → Prop} {server : ServerId} {row : InFlight}
    (hsource : P (.read (.redispatchSource row.id))) (hmint : ∀ ctx, P (.read (.mintLoaded row.id ctx)))
    (hagent : ∀ agent, P (.read (.agent agent)))
    (htimer : P (.timer (.cancel server .autoInterrupt row.id)))
    (hclaim : ∀ kind markDone skip, P (.task (.claimTransition row.id kind markDone skip)))
    (hevent : ∀ event, P (.task (.createEvent event)))
    (hpush : ∀ agent m, P (.deliver (.push agent m)))
    (hpost : ∀ agent m, P (.deliver (.post agent m))) :
    Prog.Issues (L := Statements) P (failAndCascade server row) := by
  have hevents : ∀ event, Prog.Issues (L := Statements) P (createEvent event) :=
    fun event => createEvent_built Issues.compositional (.issue (hevent event))
  refine failAndCascade_built Issues.compositional (.issue htimer) (.issue hsource)
    (fun _ => .issue (hmint _)) ?_ ?_ fun assign _ => ?_
  · exact claimAndRecord_issues (hclaim _ _ _) trivial (hevents _)
  · exact claimAndRecord_issues (hclaim _ _ _) trivial (hevents _)
  · exact claimAndRecord_issues (hclaim _ _ _) trivial
      (Issues.compositional.bind (hevents _) fun _ => broadcast_built Issues.compositional
        (.issue (hagent _)) (.issue (hpush _ _)) (.issue (hpost _ _)))

theorem failAndCascade_issues {server : ServerId} {row : InFlight} :
    Prog.Issues (L := Statements) Stmt.InCascade (failAndCascade server row) :=
  failAndCascade_within trivial (fun _ => trivial) (fun _ => trivial) trivial
    (fun _ _ _ => trivial) (fun _ => trivial) (fun _ _ => trivial) fun _ _ => trivial

theorem failAndCascadeInflight_issues {server : ServerId} {tasks : List InFlight} :
    Prog.Issues (L := Statements) Stmt.InCascade (failAndCascadeInflight server tasks) :=
  Issues.compositional.forEach fun _ _ => failAndCascade_issues

theorem noRelease_built :
    Built fun _ p => Prog.Issues (L := Statements) Stmt.NoRelease p where
  toCompositional := Issues.compositional
  read _ := .issue trivial
  timer _ := .issue trivial
  send _ _ := .issue trivial
  caller _ := .issue trivial
  claim _ _ _ _ := .issue trivial
  revoke _ := .issue trivial
  cascade _ _ := orphanCascade_built Issues.compositional (.issue trivial) fun _ =>
    failAndCascade_issues.mono fun _ => Stmt.InCascade.noRelease

end PersistBackend

/-! ## The reports -/

/-- The statements of a report: no new task, no message. -/
def Stmt.InReport : Stmt → Prop
  | .read _ => True
  | .timer _ => True
  | .task (.createEvent _) => True
  | .task (.save ..) => True
  | _ => False

namespace PersistBackend

private theorem createEvent_inReport {event : TaskEvent} :
    Prog.Issues (L := Statements) Stmt.InReport (createEvent event) :=
  createEvent_built Issues.compositional (.issue trivial)

private theorem finishTask_inReport {id : TaskId} {kind : TaskEventKind}
    {message : Option EventText} :
    Prog.Issues (L := Statements) Stmt.InReport (finishTask id kind message) :=
  Issues.compositional.bind createEvent_inReport fun _ => .issue trivial

private theorem unfoldToHigherOrder_inReport {child : TaskId} {kind : TaskEventKind}
    {returns : Option (Dict Json)} {message : Option EventText} :
    Prog.Issues (L := Statements) Stmt.InReport
      (unfoldToHigherOrder child kind returns message) := by
  refine Issues.compositional.bind (.issue trivial) fun source => ?_
  split
  · split
    · trivial
    · exact Issues.compositional.bind createEvent_inReport fun _ => .issue trivial
  · trivial

private theorem finishOpen_inReport {id : TaskId} {kind : TaskEventKind}
    {message : Option EventText} {x : Task} : Prog.Issues (L := Statements) Stmt.InReport
      (if x.isDone = true then .ret () else
        (finishTask id kind message).bind fun _ => unfoldToHigherOrder id kind none message) := by
  split
  · trivial
  · exact Issues.compositional.bind finishTask_inReport fun _ => unfoldToHigherOrder_inReport

theorem onTerminalReport_inReport {server : ServerId} {id : TaskId} {kind : TaskEventKind}
    {message : Option EventText} :
    Prog.Issues (L := Statements) Stmt.InReport (onTerminalReport server id kind message) :=
  Issues.compositional.bind (.issue trivial) fun _ =>
    Issues.compositional.bind (.issue trivial) fun _ =>
    Issues.compositional.bind (.issue trivial) fun _ =>
    Issues.compositional.bind (orDoesNotExist_built Issues.compositional) fun _ =>
      finishOpen_inReport

theorem onNonterminalConfirm_inReport {server : ServerId} {id : TaskId} {kind : TaskEventKind}
    {cancelLease : Bool} :
    Prog.Issues (L := Statements) Stmt.InReport
      (onNonterminalConfirm server id kind cancelLease) := by
  have hrest : Prog.Issues (L := Statements) Stmt.InReport
      (onNonterminalConfirm server id kind false) := by
    refine Issues.compositional.bind (.issue trivial) fun row => ?_
    cases row with
    | none => trivial
    | some x =>
      dsimp only
      split
      · trivial
      · exact Issues.compositional.bind createEvent_inReport fun _ => .issue trivial
  cases cancelLease with
  | false => exact hrest
  | true => exact Issues.compositional.bind (.issue trivial) fun _ => hrest

theorem onReport_inReport {S : Settings} {server : ServerId} {r : Report} :
    Prog.Issues (L := Statements) Stmt.InReport (onReport S server r) := by
  have hreply : ∀ {p : Handler Unit} {reply : Option ToAgentMessage},
      Prog.Issues (L := Statements) Stmt.InReport p →
      Prog.Issues (L := Statements) Stmt.InReport (p.bind fun _ => .ret reply) := fun hp =>
    Issues.compositional.bind hp fun _ => Issues.compositional.ret _
  unfold onReport
  cases r.kind with
  | started => exact hreply onNonterminalConfirm_inReport
  | paused => exact hreply onNonterminalConfirm_inReport
  | resumed => exact hreply onNonterminalConfirm_inReport
  | completed => exact hreply onTerminalReport_inReport
  | cancelled => exact hreply onTerminalReport_inReport
  | failed error => exact hreply onTerminalReport_inReport
  | critical error => exact hreply onTerminalReport_inReport
  | interrupted =>
    refine hreply (Issues.compositional.bind (.issue trivial) fun _ =>
      Issues.compositional.bind (.issue trivial) fun _ =>
      Issues.compositional.bind (.issue trivial) fun row => ?_)
    cases row with
    | none => trivial
    | some x => exact finishOpen_inReport
  | log message => exact hreply createEvent_inReport
  | progress progress message =>
    refine hreply (Issues.compositional.bind createEvent_inReport fun _ => ?_)
    unfold armProgressLease
    split
    · trivial
    · refine Issues.compositional.bind (.issue trivial) fun row =>
        Issues.compositional.bind (orDoesNotExist_built Issues.compositional) fun row => ?_
      split
      split
      · trivial
      · exact .issue trivial
  | «yield» returns =>
    exact hreply (Issues.compositional.bind createEvent_inReport fun _ =>
      unfoldToHigherOrder_inReport)

end PersistBackend

theorem ReportCall.issues {S : Settings} (c : ReportCall) :
    Prog.Issues (L := Statements) Stmt.InReport (c.code S) := by
  cases c with
  | report server r => exact discard_built Issues.compositional PersistBackend.onReport_inReport
  | silent id =>
    refine Issues.compositional.bind (.issue trivial) fun row =>
      Issues.compositional.bind (orDoesNotExist_built Issues.compositional) fun task => ?_
    split
    · trivial
    · exact PersistBackend.finishTask_inReport

/-! ## The postman -/

namespace Backend

theorem broadcast_issues {agent : AgentId} {m : ToAgentMessage} (hm : m.quiet = true) :
    Prog.Issues (L := Statements) Stmt.Quiet (broadcast agent m) :=
  broadcast_built Issues.compositional (.issue trivial) (.issue hm) (.issue hm)

theorem controlTarget_issues {op : ControlOp} {target : TaskId × Task} :
    Prog.Issues (L := Statements) Stmt.Quiet (controlTarget op target) := by
  refine Issues.compositional.bind (.issue ⟨rfl, rfl⟩) fun _ => ?_
  refine Issues.compositional.bind
    (createEvent_built Issues.compositional (.issue ?_)) fun _ => broadcast_issues ?_
  · cases op <;> rfl
  · cases op <;> rfl

theorem requestControl_built (hQ : Compositional Q) (hread : ∀ q : Query, Q q.Ans (ask q))
    {op : ControlOp} (htarget : ∀ target, Q Unit (controlTarget op target)) {id : TaskId} :
    Q TaskId (requestControl op id) := by
  refine hQ.bind (hread (.task id)) fun row => hQ.bind (orDoesNotExist_built hQ) fun task => ?_
  split
  · exact hQ.fail _
  have htargets : ∀ targets, Q TaskId
      ((Prog.forEach (controlTarget op) targets).bind fun _ => .ret id) := fun targets =>
    hQ.bind (hQ.forEach fun target _ => htarget target) fun _ => hQ.ret _
  dsimp only
  split
  · exact hQ.bind (hread (.openTasksOfRoot id)) fun _ => htargets _
  · exact htargets _

theorem callerControlSync_built (hQ : Compositional Q) (hread : ∀ q : Query, Q q.Ans (ask q))
    (hcaller : ∀ identity,
      Q CallerId (Prog.issue (L := Statements) (.getOrCreateCaller identity)))
    {op : ControlOp} (htarget : ∀ target, Q Unit (controlTarget op target)) {agent : AgentId}
    {id : TaskId} : Q TaskId (callerControlSync agent op id) := by
  refine hQ.bind (hread (.agent agent)) fun _ => hQ.bind (orDoesNotExist_built hQ) fun row =>
    hQ.bind (hcaller _) fun caller => hQ.bind (hread (.task id)) fun _ =>
    hQ.bind (orDoesNotExist_built hQ) fun task => ?_
  split
  · exact hQ.fail _
  · exact requestControl_built hQ hread htarget

theorem requestControl_issues {op : ControlOp} {id : TaskId} :
    Prog.Issues (L := Statements) Stmt.Quiet (requestControl op id) :=
  requestControl_built Issues.compositional (fun _ => .issue trivial)
    fun _ => controlTarget_issues

theorem callerControlSync_issues {agent : AgentId} {op : ControlOp} {id : TaskId} :
    Prog.Issues (L := Statements) Stmt.Quiet (callerControlSync agent op id) :=
  callerControlSync_built Issues.compositional (fun _ => .issue trivial) (fun _ => .issue trivial)
    fun _ => controlTarget_issues

theorem onCallerCancel_issues {server : ServerId} {agent : AgentId} {id : TaskId}
    {autoInterrupt : Option Time} :
    Prog.Issues (L := Statements) Stmt.Quiet (onCallerCancel server agent id autoInterrupt) := by
  refine Issues.compositional.bind callerControlSync_issues fun task => ?_
  cases autoInterrupt with
  | none => trivial
  | some window => exact ⟨trivial, fun _ => trivial⟩

theorem escalateToInterrupt_issues {id : TaskId} :
    Prog.Issues (L := Statements) Stmt.Quiet (escalateToInterrupt id) := by
  refine Issues.compositional.bind (.issue trivial) fun row => ?_
  cases row with
  | none => trivial
  | some task =>
    dsimp only
    split
    · trivial
    refine Issues.compositional.bind requestControl_issues.attempt fun answer => ?_
    split <;> trivial

end Backend

/-! ## The agents' mutations -/

theorem AgentCall.built (hQ : Compositional Q) (hread : ∀ q : Query, Q q.Ans (ask q))
    (hagent : ∀ c, Q c.Ans (AgentMutations.agentStmt c))
    (hkick : ∀ agent reason, Q Unit (broadcast agent (.kick reason))) (c : AgentCall) :
    Q Unit c.code := by
  have hrow : ∀ {β : Type} {id : AgentId} {f : Agent → Handler β}, (∀ row, Q β (f row)) →
      Q β ((getAgent id).bind fun row => (orDoesNotExist "Agent" row).bind f) := fun hf =>
    hQ.bind (hread (.agent _)) fun _ => hQ.bind (orDoesNotExist_built hQ) hf
  have hsave : ∀ id row, Q Unit (AgentMutations.agentStmt (.save id row)) :=
    fun id row => hagent (.save id row)
  cases c with
  | block agent reason => exact hrow fun _ => hQ.bind (hsave _ _) fun _ => hkick agent reason
  | unblock agent => exact hrow fun _ => hsave _ _
  | updateAgent agent name => exact hrow fun _ => hsave _ _
  | pinAgent agent user pin =>
    exact hrow fun _ => hQ.bind (hagent (.pin agent user pin)) fun _ => hsave _ _
  | ensureAgent identity defaults kind hookUrl hookUrlSecret =>
    refine discard_built hQ (hQ.bind (hagent (.getOrCreate identity defaults)) fun id => ?_)
    split
    · exact hQ.bind (hagent (.saveTransport id kind hookUrl hookUrlSecret)) fun _ => hQ.ret _
    · exact hQ.ret _
  | implementAgent identity defaults hash =>
    exact discard_built hQ (hQ.bind (hread .uuid) fun fresh => hagent (.updateOrCreate identity
      defaults (if hash.any (· != "") then hash.getD "" else fresh)))

theorem AgentCall.issues (c : AgentCall) :
    Prog.Issues (L := Statements) Stmt.Quiet c.code :=
  AgentCall.built Issues.compositional (fun _ => .issue trivial) (fun _ => .issue trivial)
    (fun _ _ => Backend.broadcast_issues rfl) c

/-! ## Calls about tasks that are there -/

/-- No agent row is written but for its lease, and no task is created. -/
def Stmt.Aside : Stmt → Prop
  | .agent _ => False
  | .task (.create _) => False
  | _ => True

theorem Stmt.Aside.noAgentRow {c : Stmt} (h : c.Aside) : c.NoAgentRow := by
  cases c with
  | agent c => exact h.elim
  | _ => trivial

theorem aside_built :
    PersistBackend.Built fun _ p => Prog.Issues (L := Statements) Stmt.Aside p where
  toCompositional := Issues.compositional
  read _ := .issue trivial
  timer _ := .issue trivial
  send _ _ := .issue trivial
  caller _ := .issue trivial
  claim _ _ _ _ := .issue trivial
  revoke _ := .issue trivial
  cascade _ _ := by
    refine PersistBackend.orphanCascade_built Issues.compositional (.issue trivial) fun _ =>
      PersistBackend.failAndCascade_issues.mono fun c hc => ?_
    cases c with
    | agent c => exact hc.elim
    | task c => cases c <;> first | exact hc.elim | trivial
    | _ => trivial

theorem TaskCall.aside {S : Settings} (c : TaskCall) :
    Prog.Issues (L := Statements) Stmt.Aside (c.code S) := by
  cases c with
  | connection c =>
    exact aside_built.connectionCall (fun _ _ _ => .issue trivial)
      fun _ _ _ _ => aside_built.sweeps.onAgentDisconnected (.issue trivial)
  | report c =>
    refine c.issues.mono fun st hst => ?_
    cases st with
    | agent c => exact hst.elim
    | task c => cases c <;> first | exact hst.elim | trivial
    | _ => trivial

/-! ## Calls that neither assign nor control -/

/-- The agent and the task of a control message that the statement hands out. -/
def Stmt.controls : Stmt → Option (AgentId × TaskId)
  | .deliver (.push a m) => m.controlled?.map (a, ·)
  | .deliver (.post a m) => m.controlled?.map (a, ·)
  | _ => none

/-- No task is stored, and no control message handed out. -/
def Stmt.Apart : Stmt → Prop
  | .task (.create _) => False
  | c => c.controls = none

theorem Stmt.Apart.stores_none {c : Stmt} (h : c.Apart) : ∀ row, c ≠ .task (.create row) := by
  rintro row rfl
  exact h

theorem Stmt.Quiet.stores_none {c : Stmt} (h : c.Quiet) : ∀ row, c ≠ .task (.create row) := by
  rintro row rfl
  exact h

theorem Stmt.Apart.controls_none {c : Stmt} (h : c.Apart) : c.controls = none := by
  cases c with
  | task c =>
    cases c with
    | create row => exact h.elim
    | _ => rfl
  | _ => exact h

theorem broadcast_apart {agent : AgentId} {m : ToAgentMessage} (h : m.controlled? = none) :
    Prog.Issues (L := Statements) Stmt.Apart (broadcast agent m) := by
  refine broadcast_built Issues.compositional (.issue rfl) (.issue ?_) (.issue ?_)
  · show m.controlled?.map _ = none
    rw [h]
    rfl
  · show m.controlled?.map _ = none
    rw [h]
    rfl

theorem apart_built :
    PersistBackend.Built fun _ p => Prog.Issues (L := Statements) Stmt.Apart p where
  toCompositional := Issues.compositional
  read _ := .issue rfl
  timer _ := .issue rfl
  send _ _ := .issue rfl
  caller _ := .issue rfl
  claim _ _ _ _ := .issue rfl
  revoke _ := .issue rfl
  cascade _ _ := by
    have hevent : ∀ event, Prog.Issues (L := Statements) Stmt.Apart (createEvent event) :=
      fun event => createEvent_built Issues.compositional (.issue rfl)
    refine PersistBackend.orphanCascade_built Issues.compositional (.issue rfl) fun row =>
      PersistBackend.failAndCascade_built Issues.compositional (.issue rfl) (.issue rfl)
        (fun _ => .issue rfl) ?_ ?_ fun assign _ => ?_
    · exact PersistBackend.claimAndRecord_issues rfl trivial (hevent _)
    · exact PersistBackend.claimAndRecord_issues rfl trivial (hevent _)
    · exact PersistBackend.claimAndRecord_issues rfl trivial
        (Issues.compositional.bind (hevent _) fun _ => broadcast_apart rfl)

theorem TaskCall.apart {S : Settings} (c : TaskCall) :
    Prog.Issues (L := Statements) Stmt.Apart (c.code S) := by
  cases c with
  | connection c =>
    exact apart_built.connectionCall (fun _ _ _ => .issue rfl)
      fun _ _ _ _ => apart_built.sweeps.onAgentDisconnected (.issue rfl)
  | report c =>
    refine c.issues.mono fun st hst => ?_
    cases st with
    | task c => cases c <;> first | exact hst.elim | rfl
    | deliver c => exact hst.elim
    | _ => rfl

theorem AgentCall.apart (c : AgentCall) : Prog.Issues (L := Statements) Stmt.Apart c.code :=
  AgentCall.built Issues.compositional (fun _ => .issue rfl) (fun _ => .issue rfl)
    (fun _ _ => broadcast_apart rfl) c

end Rekuest
