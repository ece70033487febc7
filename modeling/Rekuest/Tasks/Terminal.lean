import Rekuest.Footprint
import Rekuest.Interleave.Typestate
import Rekuest.Tasks.Rows

/-!
# Rekuest.Tasks.Terminal

The terminal outcome of one task under concurrency, statement by statement: the agents' reports,
the orphan cascade in any number of processes, and the silent-operation timer.

* `Move`, `Status`: the race itself. A writer either announces an outcome and then saves the row
  (the reports), or claims the row and then records the outcome (the cascade).
* `outcomeProtocol`: the order in which a process touches the task; every handler follows it.
* `OneOutcome`: at most one terminal event, it agrees with the row, and a done row is frozen.
* `Unraced`: no other writer's terminal transition has landed since the `is_done` that the
  writer acts on was read.
* `one_terminal_outcome`: every run of unraced steps has one outcome.
  `report_races_cascade`: a report and a racing cascade have two.
-/

namespace Rekuest
namespace Outcome

open Interleave Interleave.Prog

/-! ## The race -/

/-- What a process is in the middle of on the task. -/
inductive Phase where
  | idle
  /-- It recorded an outcome, and has yet to save the row. -/
  | saving (kind : TaskEventKind)
  /-- It saved the row as CRITICAL, and has yet to record the outcome. -/
  | recording

/-- The columns that the outcome decides, and the kinds of the terminal events. -/
structure View where
  isDone : Bool
  finishedAt : Option Time
  kind : TaskEventKind
  outcomes : List TaskEventKind

/-- What a step of a process does, when no other writer has come in between. -/
inductive Move : Phase → View → Phase → View → Prop where
  | quiet {v : View} {kind : TaskEventKind} (h : v.isDone = true → kind = v.kind) :
    Move .idle v .idle { v with kind := kind }
  | announce {v : View} {k : TaskEventKind} (hd : v.isDone = false) (ho : v.outcomes = []) :
    Move .idle v (.saving k) { v with outcomes := [k] }
  | save {v : View} {k : TaskEventKind} {now : Option Time} (hd : v.isDone = false) :
    Move (.saving k) v .idle { v with isDone := true, finishedAt := now, kind := k }
  | claim {v : View} {now : Option Time} (hd : v.isDone = false) (ho : v.outcomes = []) :
    Move .idle v .recording { v with isDone := true, finishedAt := now, kind := .critical }
  | record {v : View} :
    Move .recording v .idle { v with outcomes := v.outcomes ++ [.critical] }

/-- How far the outcome has come: at most one process is in the middle of it. -/
inductive Status {π : Type} (φ : π → Phase) (v : View) : Prop where
  | «open» (hd : v.isDone = false) (ho : v.outcomes = []) (hi : ∀ p, φ p = .idle)
  | announced (p : π) (k : TaskEventKind) (hd : v.isDone = false) (ho : v.outcomes = [k])
    (hp : φ p = .saving k) (hi : ∀ q, q ≠ p → φ q = .idle)
  | claimed (p : π) (hd : v.isDone = true) (hk : v.kind = .critical) (ho : v.outcomes = [])
    (hp : φ p = .recording) (hi : ∀ q, q ≠ p → φ q = .idle)
  | closed (hd : v.isDone = true) (ho : v.outcomes = [v.kind]) (hi : ∀ p, φ p = .idle)

/-- A done row is frozen. -/
theorem Move.frozen {φ φ' : Phase} {v v' : View} (h : Move φ v φ' v') (hd : v.isDone = true) :
    v'.isDone = true ∧ v'.finishedAt = v.finishedAt ∧ v'.kind = v.kind := by
  cases h with
  | quiet h => exact ⟨hd, rfl, h hd⟩
  | announce hn ho => exact ⟨hd, rfl, rfl⟩
  | save hn => rw [hn] at hd; cases hd
  | claim hn ho => rw [hn] at hd; cases hd
  | record => exact ⟨hd, rfl, rfl⟩

theorem Status.move {π : Type} [DecidableEq π] {φ : π → Phase} {v v' : View} {p : π}
    {φ' : Phase} (h : Status φ v) (hm : Move (φ p) v φ' v') :
    Status (fun q => if q = p then φ' else φ q) v' := by
  generalize hφ : φ p = φp at hm
  cases hm with
  | @quiet _ kind hk =>
    have hsame : (fun q => if q = p then Phase.idle else φ q) = φ := by
      funext q
      split
      · rename_i hq; rw [hq, hφ]
      · rfl
    rw [hsame]
    cases h with
    | «open» hd ho hi => exact .open hd ho hi
    | announced q k hd ho hq hi => exact .announced q k hd ho hq hi
    | claimed q hd hkind ho hq hi => exact .claimed q hd ((hk hd).trans hkind) ho hq hi
    | closed hd ho hi => exact .closed hd (by rw [hk hd]; exact ho) hi
  | @announce _ k hn ho' =>
    cases h with
    | «open» hd ho hi =>
      exact .announced p k hn rfl (if_pos rfl) fun q hq => by rw [if_neg hq]; exact hi q
    | announced q k hd ho hq hi => rw [ho] at ho'; cases ho'
    | claimed q hd hk ho hq hi => rw [hn] at hd; cases hd
    | closed hd ho hi => rw [hn] at hd; cases hd
  | @save _ k now hn =>
    cases h with
    | «open» hd ho hi => rw [hi p] at hφ; cases hφ
    | announced q j hd ho hq hi =>
      have hpq : p = q := by
        by_contra hne
        rw [hi p hne] at hφ
        cases hφ
      subst hpq
      rw [hφ] at hq
      cases hq
      refine .closed rfl ho fun r => ?_
      by_cases hr : r = p
      · exact if_pos hr
      · rw [if_neg hr]; exact hi r hr
    | claimed q hd hk ho hq hi => rw [hn] at hd; cases hd
    | closed hd ho hi => rw [hn] at hd; cases hd
  | @claim _ now hn ho' =>
    cases h with
    | «open» hd ho hi =>
      exact .claimed p rfl rfl ho (if_pos rfl) fun q hq => by rw [if_neg hq]; exact hi q
    | announced q k hd ho hq hi => rw [ho] at ho'; cases ho'
    | claimed q hd hk ho hq hi => rw [hn] at hd; cases hd
    | closed hd ho hi => rw [hn] at hd; cases hd
  | record =>
    cases h with
    | «open» hd ho hi => rw [hi p] at hφ; cases hφ
    | announced q k hd ho hq hi =>
      by_cases hpq : p = q
      · rw [hpq, hq] at hφ; cases hφ
      · rw [hi p hpq] at hφ; cases hφ
    | claimed q hd hk ho hq hi =>
      have hpq : p = q := by
        by_contra hne
        rw [hi p hne] at hφ
        cases hφ
      subst hpq
      refine .closed hd (by show v.outcomes ++ _ = [v.kind]; rw [ho, hk]; rfl) fun r => ?_
      by_cases hr : r = p
      · exact if_pos hr
      · rw [if_neg hr]; exact hi r hr
    | closed hd ho hi => rw [hi p] at hφ; cases hφ

theorem Status.once {π : Type} {φ : π → Phase} {v : View} (h : Status φ v) :
    v.outcomes.length ≤ 1 := by
  cases h with
  | «open» hd ho hi => simp [ho]
  | announced p k hd ho hp hi => simp [ho]
  | claimed p hd hk ho hp hi => simp [ho]
  | closed hd ho hi => simp [ho]

theorem Status.agrees {π : Type} {φ : π → Phase} {v : View} (h : Status φ v)
    {k : TaskEventKind} (hk : k ∈ v.outcomes) :
    (v.isDone = true ∧ v.kind = k) ∨ ∃ p, φ p = .saving k := by
  cases h with
  | «open» hd ho hi => rw [ho] at hk; cases hk
  | announced p j hd ho hp hi =>
    rw [ho, List.mem_singleton] at hk
    exact .inr ⟨p, hk ▸ hp⟩
  | claimed p hd hkind ho hp hi => rw [ho] at hk; cases hk
  | closed hd ho hi =>
    rw [ho, List.mem_singleton] at hk
    exact .inl ⟨hd, hk.symm⟩

/-! ## The protocol of the handlers -/

/-- The order in which a process touches task `t`. Only a `reporter` records an outcome out of
the idle phase. The row of a task that is no wrapper is never the target of a mirrored event. -/
def outcomeProtocol (t : TaskId) (reporter : Bool) : Protocol Statements Phase where
  allows
    | .idle, .task (.create _) => False
    | .idle, .task (.createEvent e) => e.task = t → e.kind.isTerminal = true → reporter = true
    | .idle, .task (.save id u) => id = t → u.done = false
    | .idle, .task (.claimTransition id kind markDone _) =>
      id = t → markDone = true → kind = .critical
    | .idle, _ => True
    | .saving k, .task (.save id u) =>
      id = t ∧ u = { latestEventKind := some k, done := true }
    | .saving _, _ => False
    | .recording, .task (.createEvent e) => e.task = t ∧ e.kind = .critical
    | .recording, _ => False
  next
    | .idle, .task (.createEvent e), stored =>
      if stored = true ∧ e.task = t ∧ e.kind.isTerminal = true then .saving e.kind else .idle
    | .idle, .task (.claimTransition id _ markDone _), won =>
      if won = some true ∧ id = t ∧ markDone = true then .recording else .idle
    | _, _, _ => .idle
  real
    | .read (.unfoldSource _), answer =>
      ∀ parent impl, answer = some (some (parent, some impl)) →
        impl.higherOrderFor.isSome = true → parent ≠ t
    | _, _ => True

variable {S : Settings} {t : TaskId}

/-- The program starts and ends idle, and follows the protocol in between. -/
abbrev Obeys (t : TaskId) (reporter : Bool) {α : Type} (p : Handler α) : Prop :=
  p.Follows (outcomeProtocol t reporter) .idle .idle

variable {reporter : Bool}

theorem obeys_read {q : Query} : Obeys t reporter (ask q) :=
  .issue trivial fun _ _ => rfl

theorem obeys_timer {c : TimerStmt} :
    Obeys t reporter (Prog.issue (L := Statements) (.timer c)) :=
  .issue trivial fun _ _ => rfl

theorem obeys_deliver {c : DeliverStmt} :
    Obeys t reporter (Prog.issue (L := Statements) (.deliver c)) :=
  .issue trivial fun _ _ => rfl

theorem obeys_lease {c : LeaseStmt} :
    Obeys t reporter (Prog.issue (L := Statements) (.lease c)) :=
  .issue trivial fun _ _ => rfl

/-- An event that ends nothing, or ends another task. -/
theorem obeys_createEvent {event : TaskEvent}
    (h : ¬ (event.task = t ∧ event.kind.isTerminal = true)) :
    Obeys t reporter (createEvent event) :=
  createEvent_built Follows.compositional
    (.issue (fun ht hk => absurd ⟨ht, hk⟩ h) fun _ _ => if_neg fun hc => h hc.2)

theorem obeys_saveTask {id : TaskId} {u : TaskUpdate} (h : id = t → u.done = false) :
    Obeys t reporter (saveTask id u) :=
  .issue h fun _ _ => rfl

theorem obeys_claim {id : TaskId} {kind : TaskEventKind} {skip : Option TaskEventKind} :
    Obeys t reporter (PersistBackend.claimTaskTransitionSync id kind false skip) :=
  PersistBackend.claimTaskTransitionSync_built Follows.compositional
    (.issue (fun _ h => by cases h) fun _ _ => if_neg (by simp))

theorem obeys_failPhysicalTask {id : TaskId} :
    Obeys t reporter (PersistBackend.failPhysicalTask id) := by
  refine ⟨fun _ _ => rfl, fun won _ => ?_⟩
  show Follows _ _ _ (if won = some true ∧ id = t ∧ true = true then Phase.recording else Phase.idle)
  match won with
  | none => rw [if_neg (by simp)]; rfl
  | some false => rw [if_neg (by simp)]; rfl
  | some true =>
    by_cases ht : id = t
    · rw [if_pos ⟨rfl, ht, rfl⟩]
      refine ⟨⟨ht, rfl⟩, fun stored _ => ?_⟩
      cases stored <;> rfl
    · rw [if_neg fun hc => ht hc.2.1]
      exact obeys_createEvent fun hc => ht hc.1

theorem obeys_failAndCascade {server : ServerId} {row : InFlight} :
    Obeys t reporter (PersistBackend.failAndCascade server row) := by
  refine PersistBackend.failAndCascade_built Follows.compositional obeys_timer obeys_read
    (fun _ => obeys_read) obeys_failPhysicalTask ?_ fun assign _ => ?_
  · refine Follows.bind obeys_claim fun won => ?_
    cases won with
    | false => rfl
    | true => exact obeys_createEvent fun hc => by cases hc.2
  · refine Follows.bind obeys_claim fun won => ?_
    cases won with
    | false => rfl
    | true =>
      exact Follows.bind (obeys_createEvent fun hc => by cases hc.2) fun _ =>
        broadcast_built Follows.compositional obeys_read obeys_deliver obeys_deliver

theorem obeys_built :
    PersistBackend.Built fun _ p => p.Follows (outcomeProtocol t reporter) .idle .idle where
  toCompositional := Follows.compositional
  read _ := obeys_read
  timer _ := obeys_timer
  send _ _ := obeys_deliver
  caller _ := .issue trivial fun _ _ => rfl
  claim _ _ _ _ := obeys_lease
  revoke _ := obeys_lease
  cascade _ _ := PersistBackend.orphanCascade_built Follows.compositional obeys_read fun _ =>
    obeys_failAndCascade

theorem obeys_connectionCall (c : ConnectionCall) : Obeys t reporter (c.code S) :=
  obeys_built.connectionCall (fun _ _ _ => obeys_lease) fun _ _ _ _ =>
    obeys_built.sweeps.onAgentDisconnected obeys_lease

theorem obeys_finishTask {id : TaskId} {kind : TaskEventKind} {message : Option EventText}
    (hk : kind.isTerminal = true) : Obeys t true (PersistBackend.finishTask id kind message) := by
  by_cases ht : id = t
  · refine ⟨fun _ _ => rfl, fun stored _ => ?_⟩
    show Follows _ _ _ (if stored = true ∧ id = t ∧ kind.isTerminal = true then Phase.saving kind
      else Phase.idle)
    cases stored with
    | false => rw [if_neg (by simp)]; rfl
    | true =>
      rw [if_pos ⟨rfl, ht, hk⟩]
      exact ⟨⟨ht, rfl⟩, fun _ _ => rfl⟩
  · exact Follows.bind (obeys_createEvent fun hc => ht hc.1) fun _ =>
      obeys_saveTask fun hc => absurd hc ht

theorem obeys_unfoldToHigherOrder {child : TaskId} {kind : TaskEventKind}
    {returns : Option (Dict Json)} {message : Option EventText} :
    Obeys t reporter (PersistBackend.unfoldToHigherOrder child kind returns message) := by
  refine ⟨trivial, fun answer hreal => ?_⟩
  match answer with
  | none => rfl
  | some none => rfl
  | some (some (parent, none)) => rfl
  | some (some (parent, some impl)) =>
    show Follows _ _ (if impl.higherOrderFor.isNone = true then _ else _) Phase.idle
    split
    · rfl
    · rename_i hho
      have hne : parent ≠ t := hreal parent impl rfl (by simpa [Option.isSome_iff_ne_none] using hho)
      exact Follows.bind (obeys_createEvent fun hc => hne hc.1) fun _ =>
        obeys_saveTask fun hc => absurd hc hne

theorem obeys_ifOpen {x : Task} {p : Handler Unit} (hp : Obeys t reporter p) :
    Obeys t reporter (if x.isDone = true then .ret () else p) := by
  split
  · rfl
  · exact hp

theorem obeys_onTerminalReport {server : ServerId} {id : TaskId} {kind : TaskEventKind}
    {message : Option EventText} (hk : kind.isTerminal = true) :
    Obeys t true (PersistBackend.onTerminalReport server id kind message) :=
  Follows.bind obeys_timer fun _ => Follows.bind obeys_timer fun _ =>
    Follows.bind obeys_read fun _ => Follows.bind (orDoesNotExist_built Follows.compositional)
      fun _ => obeys_ifOpen (Follows.bind (obeys_finishTask hk) fun _ => obeys_unfoldToHigherOrder)

theorem obeys_onAgentInterrupted {server : ServerId} {id : TaskId} :
    Obeys t true (PersistBackend.onAgentInterrupted server id) := by
  refine Follows.bind obeys_timer fun _ => Follows.bind obeys_timer fun _ =>
    Follows.bind obeys_read fun x => ?_
  cases x with
  | none => rfl
  | some x =>
    exact obeys_ifOpen (Follows.bind (obeys_finishTask rfl) fun _ => obeys_unfoldToHigherOrder)

theorem obeys_onNonterminalConfirm {server : ServerId} {id : TaskId} {kind : TaskEventKind}
    {cancelLease : Bool} (hk : kind.isTerminal = false) :
    Obeys t true (PersistBackend.onNonterminalConfirm server id kind cancelLease) := by
  have hrest : Obeys t true (PersistBackend.onNonterminalConfirm server id kind false) := by
    refine Follows.bind obeys_read fun x => ?_
    cases x with
    | none => rfl
    | some x =>
      refine obeys_ifOpen (Follows.bind (obeys_createEvent fun hc => ?_) fun _ =>
        obeys_saveTask fun _ => rfl)
      exact Bool.false_ne_true (hk.symm.trans hc.2)
  cases cancelLease with
  | false => exact hrest
  | true => exact Follows.bind obeys_timer fun _ => hrest

theorem obeys_armProgressLease {server : ServerId} {id : TaskId} :
    Obeys t reporter (PersistBackend.armProgressLease S server id) := by
  unfold PersistBackend.armProgressLease
  split
  · rfl
  · refine Follows.bind obeys_read fun row =>
      Follows.bind (orDoesNotExist_built Follows.compositional) fun row => ?_
    split
    split
    · rfl
    · exact obeys_timer

theorem obeys_onReport {server : ServerId} {report : Report} :
    Obeys t true (PersistBackend.onReport S server report) := by
  have hret : ∀ (p : Handler Unit) (m : Option ToAgentMessage), Obeys t true p →
      Obeys t true (p.bind fun _ => .ret m) := fun p m hp => Follows.bind hp fun _ => rfl
  have hplain : ∀ event : TaskEvent, event.kind.isTerminal = false →
      Obeys t true (createEvent event) := fun event hk =>
    obeys_createEvent fun hc => Bool.false_ne_true (hk.symm.trans hc.2)
  unfold PersistBackend.onReport
  cases report.kind with
  | started => exact hret _ _ (obeys_onNonterminalConfirm rfl)
  | paused => exact hret _ _ (obeys_onNonterminalConfirm rfl)
  | resumed => exact hret _ _ (obeys_onNonterminalConfirm rfl)
  | log message => exact hret _ _ (hplain _ rfl)
  | progress progress message =>
    exact hret _ _ (Follows.bind (hplain _ rfl) fun _ => obeys_armProgressLease)
  | «yield» returns =>
    exact hret _ _ (Follows.bind (hplain _ rfl) fun _ => obeys_unfoldToHigherOrder)
  | completed => exact hret _ _ (obeys_onTerminalReport rfl)
  | cancelled => exact hret _ _ (obeys_onTerminalReport rfl)
  | interrupted => exact hret _ _ obeys_onAgentInterrupted
  | failed error => exact hret _ _ (obeys_onTerminalReport rfl)
  | critical error => exact hret _ _ (obeys_onTerminalReport rfl)

theorem obeys_reportCall (c : ReportCall) : Obeys t true (c.code S) := by
  cases c with
  | report server r => exact Follows.bind obeys_onReport fun _ => rfl
  | silent id =>
    exact Follows.bind obeys_read fun _ =>
      Follows.bind (orDoesNotExist_built Follows.compositional) fun _ =>
        obeys_ifOpen (obeys_finishTask rfl)

/-! ## What a step does to the task -/

def view (t : TaskId) (db : Database) : Option View :=
  (db.tasks.get t).map fun task =>
    ⟨task.isDone, task.finishedAt, task.latestEventKind, (terminalEvents db t).map (·.kind)⟩

abbrev Conf := Sys Statements Error Unit Nat World

/-- Process `n` runs the call `calls n`. -/
def startCalls (S : Settings) (calls : Nat → TaskCall) (w : World) : Conf :=
  ⟨w, fun n => (calls n).code S⟩

variable {calls : Nat → TaskCall}

/-- Statement `st` acts on an `is_done` that still holds: a reporter records an outcome on an open
row with none, a save finds the row open, and a claim of the outcome finds the row done, and so
loses, or finds no outcome recorded. -/
def actsInTime (t : TaskId) (reporter : Bool) (v : View) : Stmt → Bool
  | .task (.createEvent e) =>
    !(reporter && e.task == t && e.kind.isTerminal) || (!v.isDone && v.outcomes.isEmpty)
  | .task (.save id _) => id != t || !v.isDone
  | .task (.claimTransition id _ markDone _) =>
    !(id == t && markDone) || v.isDone || v.outcomes.isEmpty
  | _ => true

/-- No other writer's terminal transition has landed since the writer read the row. -/
def Unraced (calls : Nat → TaskCall) (t : TaskId) (c : Conf) (e : Nat × Input) : Prop :=
  ∀ v ∈ view t c.shared.db, ∀ st ∈ (c.procs e.1).next?,
    actsInTime t (calls e.1).isReport v st = true

instance (c : Conf) (e : Nat × Input) : Decidable (Unraced calls t c e) :=
  inferInstanceAs (Decidable (∀ v ∈ view t c.shared.db, ∀ st ∈ (c.procs e.1).next?,
    actsInTime t (calls e.1).isReport v st = true))

theorem view_some {db : Database} {v : View} (h : view t db = some v) :
    ∃ task, db.tasks.get t = some task ∧ v = ⟨task.isDone, task.finishedAt,
      task.latestEventKind, (terminalEvents db t).map (·.kind)⟩ := by
  obtain ⟨task, hg, hv⟩ := Option.map_eq_some_iff.mp h
  exact ⟨task, hg, hv.symm⟩

theorem view_of_get {db db' : Database} (ht : db'.tasks.get t = db.tasks.get t)
    (he : terminalEvents db' t = terminalEvents db t) : view t db' = view t db := by
  unfold view
  rw [ht, he]

variable {i : Input} {w : World} {v : View} {φ : Phase} {st : Stmt}

/-- A statement that leaves the row and its outcomes alone is a quiet move. -/
theorem quiet_same (hv : view t w.db = some v)
    (ht : (exec S i st w).2.db.tasks.get t = w.db.tasks.get t)
    (he : terminalEvents (exec S i st w).2.db t = terminalEvents w.db t) :
    ∃ v', view t (exec S i st w).2.db = some v' ∧ Move .idle v .idle v' :=
  ⟨v, (view_of_get ht he).trans hv, .quiet fun _ => rfl⟩

theorem move_createEvent {e : TaskEvent}
    (ha : (outcomeProtocol t reporter).allows .idle (.task (.createEvent e)))
    (hu : actsInTime t reporter v (.task (.createEvent e)) = true) (hv : view t w.db = some v) :
    ∃ v', view t (exec S i (.task (.createEvent e)) w).2.db = some v' ∧
      Move .idle v ((outcomeProtocol t reporter).next .idle (.task (.createEvent e))
        (exec S i (.task (.createEvent e)) w).1) v' := by
  obtain ⟨task, hg, rfl⟩ := view_some hv
  rw [exec_task_db, exec_task_ans, createEvent_exec]
  by_cases hthere : (w.db.tasks.get e.task).isSome = true
  · rw [if_pos hthere]
    show ∃ v', _ ∧ Move _ _ (if true = true ∧ e.task = t ∧ e.kind.isTerminal = true then
      Phase.saving e.kind else Phase.idle) v'
    by_cases hc : e.task = t ∧ e.kind.isTerminal = true
    · rw [if_pos ⟨rfl, hc⟩]
      have hr : reporter = true := ha hc.1 hc.2
      obtain ⟨hopen, hnone⟩ : task.isDone = false ∧ terminalEvents w.db t = [] := by
        simpa [actsInTime, hr, hc.1, hc.2] using hu
      refine ⟨_, ?_, .announce hopen (by rw [hnone]; rfl)⟩
      unfold view
      rw [terminalEvents_append, if_pos hc, hnone, hg]
      rfl
    · rw [if_neg fun h => hc h.2]
      have hsame : view t { w.db with events := w.db.events ++ [e] } = view t w.db :=
        view_of_get rfl (by rw [terminalEvents_append, if_neg hc, List.append_nil])
      exact ⟨_, hsame.trans hv, .quiet fun _ => rfl⟩
  · rw [if_neg hthere]
    show ∃ v', _ ∧ Move _ _ (if false = true ∧ e.task = t ∧ e.kind.isTerminal = true then
      Phase.saving e.kind else Phase.idle) v'
    rw [if_neg (by simp)]
    exact ⟨_, hv, .quiet fun _ => rfl⟩

theorem move_claimTransition {id : TaskId} {kind : TaskEventKind} {markDone : Bool}
    {skip : Option TaskEventKind}
    (ha : (outcomeProtocol t reporter).allows .idle
      (.task (.claimTransition id kind markDone skip)))
    (hu : actsInTime t reporter v (.task (.claimTransition id kind markDone skip)) = true)
    (hv : view t w.db = some v) :
    ∃ v', view t (exec S i (.task (.claimTransition id kind markDone skip)) w).2.db = some v' ∧
      Move .idle v ((outcomeProtocol t reporter).next .idle
        (.task (.claimTransition id kind markDone skip))
        (exec S i (.task (.claimTransition id kind markDone skip)) w).1) v' := by
  obtain ⟨task, hg, rfl⟩ := view_some hv
  have hevents : terminalEvents
      (exec S i (.task (.claimTransition id kind markDone skip)) w).2.db t =
        terminalEvents w.db t :=
    terminalEvents_of_events claimTransition_events
  show ∃ v', _ ∧ Move _ _ (if ((TaskStmt.claimTransition id kind markDone skip).exec i w.db).1 =
    some true ∧ id = t ∧ markDone = true then Phase.recording else Phase.idle) v'
  by_cases ht : t = id
  swap
  · rw [if_neg fun hc => ht hc.2.1.symm]
    exact quiet_same hv (get_claimTransition.trans (if_neg ht)) hevents
  subst ht
  have hans : ((TaskStmt.claimTransition t kind markDone skip).exec i w.db).1 =
      some (task.claimTransition i.now kind markDone skip).1 := by
    rw [ans_claimTransition, hg]
    rfl
  have hrow : view t (exec S i (.task (.claimTransition t kind markDone skip)) w).2.db = some
      ⟨(task.claimTransition i.now kind markDone skip).2.isDone,
        (task.claimTransition i.now kind markDone skip).2.finishedAt,
        (task.claimTransition i.now kind markDone skip).2.latestEventKind,
        (terminalEvents w.db t).map (·.kind)⟩ := by
    unfold view
    rw [hevents, exec_task_db, get_claimTransition, if_pos rfl, hg]
    rfl
  rw [hrow, hans]
  by_cases hlost : task.isDone = true ∨ skip = some task.latestEventKind
  · rw [claimTransition_lost hlost, if_neg (by simp)]
    exact ⟨_, rfl, .quiet fun _ => rfl⟩
  obtain ⟨hopen, hskip⟩ := not_or.mp hlost
  have hopen' : task.isDone = false := by simpa using hopen
  rw [claimTransition_won hopen' hskip]
  refine ⟨_, rfl, ?_⟩
  cases markDone with
  | false =>
    rw [if_neg (by simp)]
    simp only [TaskUpdate.apply, Option.getD_some, Bool.or_false, Bool.false_eq_true, if_false]
    exact .quiet fun hd => absurd hd hopen
  | true =>
    rw [if_pos ⟨rfl, rfl, rfl⟩]
    have hnone : terminalEvents w.db t = [] := by
      simpa [actsInTime, hopen'] using hu
    cases ha rfl rfl
    simp only [TaskUpdate.apply, Option.getD_some, Bool.or_true, if_true]
    exact .claim hopen' (by rw [hnone]; rfl)

/-- What a statement that the protocol allows does, if it acts in time. -/
theorem move_exec (ha : (outcomeProtocol t reporter).allows φ st)
    (hu : actsInTime t reporter v st = true) (hv : view t w.db = some v) :
    ∃ v', view t (exec S i st w).2.db = some v' ∧
      Move φ v ((outcomeProtocol t reporter).next φ st (exec S i st w).1) v' := by
  by_cases htask : ∃ s, st = .task s
  swap
  · have hsame := exec_not_task (S := S) (i := i) (w := w) fun s hs => htask ⟨s, hs⟩
    cases φ with
    | idle =>
      have hnext : (outcomeProtocol t reporter).next .idle st (exec S i st w).1 = .idle := by
        cases st with
        | task s => exact absurd ⟨s, rfl⟩ htask
        | _ => rfl
      rw [hnext]
      exact quiet_same hv (by rw [hsame.1]) (terminalEvents_of_events hsame.2)
    | saving k =>
      cases st with
      | task s => exact absurd ⟨s, rfl⟩ htask
      | _ => exact ha.elim
    | recording =>
      cases st with
      | task s => exact absurd ⟨s, rfl⟩ htask
      | _ => exact ha.elim
  obtain ⟨s, rfl⟩ := htask
  cases φ with
  | idle =>
    cases s with
    | create row => exact ha.elim
    | createEvent e => exact move_createEvent ha hu hv
    | save id u =>
      have hevents : terminalEvents (exec S i (.task (.save id u)) w).2.db t =
          terminalEvents w.db t := terminalEvents_of_events save_events
      by_cases ht : t = id
      · subst ht
        obtain ⟨task, hg, rfl⟩ := view_some hv
        have hopen : task.isDone = false := by simpa [actsInTime] using hu
        have hnd : u.done = false := ha rfl
        refine ⟨_, ?_, @Move.quiet _ (u.latestEventKind.getD task.latestEventKind) fun hd =>
          absurd hd (by simp [hopen])⟩
        unfold view
        rw [hevents, exec_task_db, get_save, if_pos rfl, hg]
        simp [TaskUpdate.apply, hnd]
      · exact quiet_same hv (get_save.trans (if_neg ht)) hevents
    | claimTransition id kind markDone skip => exact move_claimTransition ha hu hv
  | saving k =>
    cases s with
    | save id u =>
      obtain ⟨rfl, rfl⟩ := ha
      obtain ⟨task, hg, rfl⟩ := view_some hv
      have hopen : task.isDone = false := by simpa [actsInTime] using hu
      refine ⟨_, ?_, @Move.save _ k (some i.now) hopen⟩
      unfold view
      rw [exec_task_db, terminalEvents_of_events save_events, get_save, if_pos rfl, hg]
      simp [TaskUpdate.apply]
    | _ => exact ha.elim
  | recording =>
    cases s with
    | createEvent e =>
      obtain ⟨ht, hk⟩ := ha
      obtain ⟨task, hg, rfl⟩ := view_some hv
      refine ⟨_, ?_, .record⟩
      show view t ((TaskStmt.createEvent e).exec i w.db).2 = _
      rw [createEvent_exec, if_pos (by rw [ht, hg]; rfl)]
      unfold view
      rw [terminalEvents_append, if_pos ⟨ht, by rw [hk]; rfl⟩]
      show Option.map _ (w.db.tasks.get t) = _
      rw [hg]
      simp [hk]
    | _ => exact ha.elim

/-! ## Runs -/

/-- What a statement answers can come: a plain task is not the target of a mirrored event. -/
theorem real_exec (h : Plain t w.db) : (outcomeProtocol t reporter).real st (exec S i st w).1 := by
  cases st with
  | read q =>
    cases q with
    | unfoldSource child =>
      exact fun parent impl hans hho => h.ne_parent hans hho
    | _ => trivial
  | _ => trivial

structure Inv (calls : Nat → TaskCall) (t : TaskId) (φ : Nat → Phase) (c : Conf) : Prop where
  plain : Plain t c.shared.db
  obeys : ∀ p, (c.procs p).Follows (outcomeProtocol t (calls p).isReport) .idle (φ p)
  status : ∃ v, view t c.shared.db = some v ∧ Status φ v

/-- A step in the run is a move in the race, or nothing. -/
theorem Inv.move {φ : Nat → Phase} {c : Conf} {e : Nat × Input} (h : Inv calls t φ c)
    (hu : Unraced calls t c e) :
    c.step (exec S) e = c ∨ ∃ v φ' v', view t c.shared.db = some v ∧
      view t (c.step (exec S) e).shared.db = some v' ∧ Move (φ e.1) v φ' v' ∧
      ((c.step (exec S) e).procs e.1).Follows (outcomeProtocol t (calls e.1).isReport) .idle φ' := by
  rcases Sys.step_cases (exec S) c e with hs | ⟨st, k, hp, hs⟩
  · exact .inl hs
  obtain ⟨v, hv, _⟩ := h.status
  have ho := h.obeys e.1
  rw [hp] at ho
  have hst := hu v hv st (by rw [hp]; rfl)
  obtain ⟨v', hv', hm⟩ := move_exec (S := S) (i := e.2) ho.1 hst hv
  refine .inr ⟨v, _, v', hv, ?_, hm, ?_⟩
  · rw [hs]; exact hv'
  · rw [hs, Sys.put_self]
    exact ho.2 _ (real_exec h.plain)

theorem Inv.step {φ : Nat → Phase} {c : Conf} {e : Nat × Input} (h : Inv calls t φ c)
    (hu : Unraced calls t c e) : ∃ φ', Inv calls t φ' (c.step (exec S) e) := by
  rcases h.move (S := S) hu with hs | ⟨v, φe, v', hv, hv', hm, ho⟩
  · rw [hs]; exact ⟨φ, h⟩
  obtain ⟨w, hw, hstatus⟩ := h.status
  cases hv.symm.trans hw
  refine ⟨fun p => if p = e.1 then φe else φ p, ?_, fun p => ?_, v', hv', hstatus.move hm⟩
  · rcases Sys.step_cases (exec S) c e with hs | ⟨st, k, _, hs⟩
    · rw [hs]; exact h.plain
    · rw [hs]; exact h.plain.exec
  · by_cases hp : p = e.1
    · rw [hp, if_pos rfl]; exact ho
    · rw [if_neg hp]
      rcases Sys.step_cases (exec S) c e with hs | ⟨st, k, _, hs⟩
      · rw [hs]; exact h.obeys p
      · rw [hs, Sys.put_other _ hp]; exact h.obeys p

def Reached (calls : Nat → TaskCall) (t : TaskId) (c : Conf) : Prop := ∃ φ, Inv calls t φ c

theorem Reached.step {c : Conf} {e : Nat × Input} (h : Reached calls t c)
    (hu : Unraced calls t c e) : Reached calls t (c.step (exec S) e) := by
  obtain ⟨φ, h⟩ := h
  exact h.step hu

/-- Where `v` is done, `v'` has the same columns. -/
def Frozen (v v' : Option View) : Prop :=
  ∀ a ∈ v, a.isDone = true →
    ∃ b ∈ v', b.isDone = true ∧ b.finishedAt = a.finishedAt ∧ b.kind = a.kind

theorem Frozen.trans {u v v' : Option View} (h : Frozen u v) (h' : Frozen v v') : Frozen u v' := by
  intro a ha hd
  obtain ⟨b, hb, hbd, hbf, hbk⟩ := h a ha hd
  obtain ⟨b', hb', hbd', hbf', hbk'⟩ := h' b hb hbd
  exact ⟨b', hb', hbd', hbf'.trans hbf, hbk'.trans hbk⟩

theorem Inv.frozen {φ : Nat → Phase} {c : Conf} {e : Nat × Input} (h : Inv calls t φ c)
    (hu : Unraced calls t c e) :
    Frozen (view t c.shared.db) (view t (c.step (exec S) e).shared.db) := by
  rcases h.move (S := S) hu with hs | ⟨v, φe, v', hv, hv', hm, _⟩
  · rw [hs]; exact fun a ha hd => ⟨a, ha, hd, rfl, rfl⟩
  · intro a ha hd
    cases hv.symm.trans ha
    exact ⟨v', hv', hm.frozen hd⟩

/-- The task is plain; it is open with no outcome, or done with the one its row names. -/
def Consistent (t : TaskId) (db : Database) : Prop :=
  Plain t db ∧ ∃ v ∈ view t db,
    v.isDone = false ∧ v.outcomes = [] ∨ v.isDone = true ∧ v.outcomes = [v.kind]

/-- The claim on a run: never more than one terminal event; each agrees with a done row, or its
writer has the save still to make; and a done row is never changed again. -/
structure OneOutcome (S : Settings) (t : TaskId) (c : Conf) (sched : List (Nat × Input)) :
    Prop where
  once : ∀ pre, pre <+: sched → (terminalEvents (c.run (exec S) pre).shared.db t).length ≤ 1
  agrees : ∀ pre, pre <+: sched → ∀ e ∈ terminalEvents (c.run (exec S) pre).shared.db t,
    (∃ task, (c.run (exec S) pre).shared.db.tasks.get t = some task ∧ task.isDone = true ∧
      task.latestEventKind = e.kind) ∨
    ∃ p, ((c.run (exec S) pre).procs p).next? =
      some (.task (.save t { latestEventKind := some e.kind, done := true }))
  frozen : ∀ pre post, pre ++ post <+: sched →
    Frozen (view t (c.run (exec S) pre).shared.db) (view t (c.run (exec S) (pre ++ post)).shared.db)

theorem inv_start {w : World} (h : Consistent t w.db) :
    Inv calls t (fun _ => .idle) (startCalls S calls w) := by
  obtain ⟨hplain, v, hv, hstatus⟩ := h
  refine ⟨hplain, fun p => ?_, v, hv, ?_⟩
  · show Follows _ _ ((calls p).code S) _
    cases calls p with
    | connection c => exact obeys_connectionCall c
    | report c => exact obeys_reportCall c
  · rcases hstatus with ⟨hd, ho⟩ | ⟨hd, ho⟩
    · exact .open hd ho fun _ => rfl
    · exact .closed hd ho fun _ => rfl

/-- A process that is in the middle of a report saves next. -/
theorem next_of_saving {p : Handler Unit} {k : TaskEventKind}
    (h : p.Follows (outcomeProtocol t reporter) .idle (.saving k)) :
    p.next? = some (.task (.save t { latestEventKind := some k, done := true })) := by
  cases p with
  | ret a => cases h
  | fail e => cases h
  | stmt st k' =>
    cases st with
    | task s =>
      cases s with
      | save id u => obtain ⟨rfl, rfl⟩ := h.1; rfl
      | _ => exact h.1.elim
    | _ => exact h.1.elim

theorem Inv.once {φ : Nat → Phase} {c : Conf} (h : Inv calls t φ c) :
    (terminalEvents c.shared.db t).length ≤ 1 := by
  obtain ⟨v, hv, hstatus⟩ := h.status
  obtain ⟨task, _, rfl⟩ := view_some hv
  simpa using hstatus.once

theorem Inv.agrees {φ : Nat → Phase} {c : Conf} (h : Inv calls t φ c) {e : TaskEvent}
    (he : e ∈ terminalEvents c.shared.db t) :
    (∃ task, c.shared.db.tasks.get t = some task ∧ task.isDone = true ∧
      task.latestEventKind = e.kind) ∨
    ∃ p, (c.procs p).next? =
      some (.task (.save t { latestEventKind := some e.kind, done := true })) := by
  obtain ⟨v, hv, hstatus⟩ := h.status
  obtain ⟨task, hg, rfl⟩ := view_some hv
  rcases hstatus.agrees (List.mem_map_of_mem he) with ⟨hd, hk⟩ | ⟨p, hp⟩
  · exact .inl ⟨task, hg, hd, hk⟩
  · exact .inr ⟨p, next_of_saving (hp ▸ h.obeys p)⟩

theorem frozen_run {c : Conf} {sched : List (Nat × Input)}
    (h : Along (Sys.step (exec S))
      (fun c e => Frozen (view t c.shared.db) (view t (c.step (exec S) e).shared.db)) c sched) :
    Frozen (view t c.shared.db) (view t (c.run (exec S) sched).shared.db) := by
  induction sched generalizing c with
  | nil => exact fun a ha hd => ⟨a, ha, hd, rfl, rfl⟩
  | cons e sched ih => exact h.1.trans (ih h.2)

/-- **One terminal outcome**, in every run in which no writer acts on an `is_done` that another
writer's terminal transition has made stale. -/
theorem one_terminal_outcome (S : Settings) (t : TaskId) (calls : Nat → TaskCall) (w : World)
    (sched : List (Nat × Input)) (hw : Consistent t w.db)
    (hu : Along (Sys.step (exec S)) (Unraced calls t) (startCalls S calls w) sched) :
    OneOutcome S t (startCalls S calls w) sched := by
  have hstart : Reached calls t (startCalls S calls w) := ⟨_, inv_start hw⟩
  have hinv : ∀ pre, pre <+: sched → Reached calls t ((startCalls S calls w).run (exec S) pre) :=
    fun pre hpre => (hu.of_prefix hpre).inv (fun c e hc he => hc.step he) hstart
  refine ⟨fun pre hpre => ?_, fun pre hpre e he => ?_, fun pre post hpost => ?_⟩
  · obtain ⟨φ, h⟩ := hinv pre hpre
    exact h.once
  · obtain ⟨φ, h⟩ := hinv pre hpre
    exact h.agrees he
  · have hrest := (along_append.mp (hu.of_prefix hpost)).2
    rw [Sys.run_append]
    refine frozen_run ((hrest.with_inv (fun c e hc he => Reached.step (S := S) hc he)
      (hinv pre ((List.prefix_append pre post).trans hpost))).mono ?_)
    rintro c e ⟨⟨φ, hc⟩, he⟩
    exact hc.frozen he

section Race

/-- Process 0 handles a Completed of task 1; the others cascade over the work of agent 1. -/
def completedAndCascades : Nat → TaskCall
  | 0 => .report (.report 0 { id := 1, task := 1, kind := .completed })
  | _ => .connection (.graceExpired 0 1)

def steps (process n : Nat) : List (Nat × Input) := List.replicate n (process, default)

theorem consistent_runningWorld : Consistent 1 (runningWorld .physical).db :=
  ⟨plain_runningWorld, _, rfl, .inl ⟨rfl, rfl⟩⟩

/-- The cascade comes after the report. -/
theorem one_terminal_outcome_in_turn :
    OneOutcome {} 1 (startCalls {} completedAndCascades (runningWorld .physical))
      (steps 0 6 ++ steps 1 5) :=
  one_terminal_outcome {} 1 completedAndCascades _ _ consistent_runningWorld (by decide +kernel)

/-- The report reads that the task is open, the cascade claims and records CRITICAL, and the
report records COMPLETED. -/
theorem report_races_cascade :
    ¬ OneOutcome {} 1 (startCalls {} completedAndCascades (runningWorld .physical))
      (steps 0 3 ++ steps 1 5 ++ steps 0 2) := by
  intro h
  have htwo : (terminalEvents ((startCalls {} completedAndCascades (runningWorld .physical)).run
      (exec {}) (steps 0 3 ++ steps 1 5 ++ steps 0 2)).shared.db 1).length = 2 := by
    decide +kernel
  have hone := h.once _ List.prefix_rfl
  rw [htwo] at hone
  exact absurd hone (by decide)

end Race

end Outcome
end Rekuest
