import Rekuest.Tasks.Reports

/-!
# Rekuest.Tasks.Crash

A terminal report whose handling crashes, and that the agent resends until it is acknowledged.

* `Attempt`: one handling of the report, cut off after some statements. Without a crash the
  handler runs to its end, where the acknowledgement is.
* `Progress`: how far the task and its wrapper have come. `Progress.cut` is what an attempt makes
  of it, `progress_attempt` that the handler does exactly this.
* `CleanCrashes`: every attempt up to the first that gets as far as its event crashes before that
  event or not before its last write.
* `acked_recorded_iff`: the acknowledged report is fully recorded exactly after clean crashes.
-/

namespace Rekuest
namespace Crash

open Interleave Interleave.Prog

/-! ## Progress -/

/-- `is_done` of a task, and the kinds of its terminal events. -/
abbrev Status := Bool × List TaskEventKind

/-- The status of the task, and of its wrapper if it has one. -/
structure Progress where
  task : Status
  wrapper : Option Status

namespace Progress

variable (kind : TaskEventKind)

/-- What an attempt cut off after `n` statements makes of the progress. The statements are: two
timers, the read, the event, the save, the read of the wrapper, its event, its save. -/
def cut (p : Progress) (n : Nat) : Progress :=
  if p.task.1 then p
  else match n with
    | 0 | 1 | 2 | 3 => p
    | 4 => { p with task := (false, p.task.2 ++ [kind]) }
    | 5 | 6 => { p with task := (true, p.task.2 ++ [kind]) }
    | 7 => {
        task := (true, p.task.2 ++ [kind])
        wrapper := p.wrapper.map fun w => (w.1, w.2 ++ [kind]) }
    | _ => {
        task := (true, p.task.2 ++ [kind])
        wrapper := p.wrapper.map fun w => (true, w.2 ++ [kind]) }

/-- Nothing is recorded yet. -/
def Fresh (p : Progress) : Prop := p.task = (false, []) ∧ ∀ w ∈ p.wrapper, w = (false, [])

/-- Task and wrapper are done, each with one terminal event, of the reported kind. -/
def Recorded (p : Progress) : Prop :=
  p.task = (true, [kind]) ∧ ∀ w ∈ p.wrapper, w = (true, [kind])

/-- The number of statements up to the last write. -/
def lastWrite (p : Progress) : Nat := if p.wrapper.isSome then 8 else 5

/-- Beyond repair: open but with an event already, or done but not recorded. -/
def Spoiled (p : Progress) : Prop :=
  (p.task.1 = false ∧ p.task.2 ≠ []) ∨ (p.task.1 = true ∧ ¬ p.Recorded kind)

end Progress

/-- The first attempt that gets as far as its event gets past its last write as well. -/
def CleanCrashes (lastWrite : Nat) : List Nat → Prop
  | [] => True
  | n :: ns => n ≤ 3 ∧ CleanCrashes lastWrite ns ∨ lastWrite ≤ n

namespace Progress

variable {kind : TaskEventKind} {p : Progress} {n : Nat}

theorem cut_of_done (h : p.task.1 = true) : p.cut kind n = p := if_pos h

theorem Recorded.cut (h : p.Recorded kind) : (p.cut kind n).Recorded kind := by
  rw [cut_of_done (by rw [h.1])]
  exact h

theorem Spoiled.cut (h : p.Spoiled kind) : (p.cut kind n).Spoiled kind := by
  rcases h with ⟨hopen, hne⟩ | ⟨hdone, hnot⟩
  swap
  · rw [cut_of_done hdone]
    exact .inr ⟨hdone, hnot⟩
  have htwo : ∀ q : Progress, q.task = (true, p.task.2 ++ [kind]) → q.Spoiled kind := by
    intro q hq
    refine .inr ⟨by rw [hq], fun hr => ?_⟩
    rw [hr.1] at hq
    have hlen := congrArg (fun s : Status => s.2.length) hq
    have hpos := List.length_pos_iff.mpr hne
    simp only [List.length_append, List.length_singleton] at hlen
    omega
  unfold Progress.cut
  rw [if_neg (by rw [hopen]; exact Bool.false_ne_true)]
  split
  · exact .inl ⟨hopen, hne⟩
  · exact .inl ⟨hopen, hne⟩
  · exact .inl ⟨hopen, hne⟩
  · exact .inl ⟨hopen, hne⟩
  · exact .inl ⟨rfl, by simp⟩
  · exact htwo _ rfl
  · exact htwo _ rfl
  · exact htwo _ rfl
  · exact htwo _ rfl

/-- An attempt on a fresh task leaves it fresh, records it, or spoils it. -/
theorem Fresh.cut (h : p.Fresh) (kind : TaskEventKind) (n : Nat) :
    (n ≤ 3 ∧ p.cut kind n = p) ∨ (p.lastWrite ≤ n ∧ (p.cut kind n).Recorded kind) ∨
      (3 < n ∧ n < p.lastWrite ∧ (p.cut kind n).Spoiled kind) := by
  obtain ⟨⟨done, events⟩, wrapper⟩ := p
  obtain ⟨ht, hw⟩ := h
  cases ht
  by_cases hn : n ≤ 3
  · refine .inl ⟨hn, ?_⟩
    match n, hn with
    | 0, _ => rfl
    | 1, _ => rfl
    | 2, _ => rfl
    | 3, _ => rfl
  refine .inr ?_
  cases wrapper with
  | none =>
    match n, hn with
    | 4, _ => exact .inr ⟨by omega, by decide, .inl ⟨rfl, List.cons_ne_nil kind []⟩⟩
    | 5, _ => exact .inl ⟨by decide, rfl, nofun⟩
    | 6, _ => exact .inl ⟨by decide, rfl, nofun⟩
    | 7, _ => exact .inl ⟨by decide, rfl, nofun⟩
    | n + 8, _ => exact .inl ⟨by show 5 ≤ n + 8; omega, rfl, nofun⟩
  | some w =>
    cases hw w rfl
    have hnot : ∀ q : Progress, q.task = (true, [kind]) → (∃ ks, q.wrapper = some (false, ks)) →
        q.Spoiled kind := by
      rintro q hq ⟨ks, hks⟩
      refine .inr ⟨by rw [hq], fun hr => ?_⟩
      cases hr.2 _ hks
    match n, hn with
    | 4, _ => exact .inr ⟨by omega, by decide, .inl ⟨rfl, List.cons_ne_nil kind []⟩⟩
    | 5, _ => exact .inr ⟨by omega, by decide, hnot _ rfl ⟨_, rfl⟩⟩
    | 6, _ => exact .inr ⟨by omega, by decide, hnot _ rfl ⟨_, rfl⟩⟩
    | 7, _ => exact .inr ⟨by omega, by decide, hnot _ rfl ⟨_, rfl⟩⟩
    | n + 8, _ =>
      refine .inl ⟨by show 8 ≤ n + 8; omega, rfl, fun w hw => ?_⟩
      cases hw
      rfl

theorem not_recorded_of_spoiled (h : p.Spoiled kind) : ¬ (p.cut kind (n + 8)).Recorded kind := by
  rcases h.cut (n := n + 8) with ⟨hopen, _⟩ | ⟨_, hnot⟩
  · intro hr
    rw [hr.1] at hopen
    cases hopen
  · exact hnot

theorem spoiled_attempts {ns : List Nat} (h : p.Spoiled kind) :
    (ns.foldl (Progress.cut kind) p).Spoiled kind := by
  induction ns generalizing p with
  | nil => exact h
  | cons n ns ih => exact ih h.cut

theorem recorded_attempts {ns : List Nat} (h : p.Recorded kind) :
    (ns.foldl (Progress.cut kind) p).Recorded kind := by
  induction ns generalizing p with
  | nil => exact h
  | cons n ns ih => exact ih h.cut

/-- Crashes and then one attempt to the end: all is recorded exactly after clean crashes. -/
theorem recorded_iff {ns : List Nat} (h : p.Fresh) :
    ((ns.foldl (Progress.cut kind) p).cut kind (n + 8)).Recorded kind ↔
      CleanCrashes p.lastWrite ns := by
  have hlast : p.lastWrite ≤ 8 := by
    unfold lastWrite
    split <;> omega
  induction ns with
  | nil =>
    refine ⟨fun _ => trivial, fun _ => ?_⟩
    rcases h.cut kind (n + 8) with ⟨hn, _⟩ | ⟨_, hr⟩ | ⟨_, hn, _⟩
    · omega
    · exact hr
    · omega
  | cons m ms ih =>
    rw [List.foldl_cons]
    rcases h.cut kind m with ⟨hm, hsame⟩ | ⟨hm, hr⟩ | ⟨hm, hm', hs⟩
    · rw [hsame]
      refine ⟨fun hr => .inl ⟨hm, ih.mp hr⟩, fun hc => hc.elim (fun hc => ih.mpr hc.2) fun hl => ?_⟩
      have : 5 ≤ p.lastWrite := by unfold lastWrite; split <;> omega
      omega
    · exact ⟨fun _ => .inr hm, fun _ => (recorded_attempts hr).cut⟩
    · refine ⟨fun hr => absurd hr (not_recorded_of_spoiled (spoiled_attempts hs)), fun hc => ?_⟩
      rcases hc with ⟨hc, _⟩ | hc <;> omega

end Progress

/-! ## The handler -/

variable {S : Settings} {t id : TaskId} {w : World} {i : Nat → Input} {r : Report}
  {kind : TaskEventKind} {message : Option EventText}

/-- What a terminal report does once it found the task open. -/
def recordOutcome (id : TaskId) (kind : TaskEventKind) (message : Option EventText)
    (reply : Option ToAgentMessage) : Handler (Option ToAgentMessage) :=
  (PersistBackend.finishTask id kind message).bind fun _ =>
    (PersistBackend.unfoldToHigherOrder id kind none message).bind fun _ => .ret reply

open PersistBackend in
/-- The five terminal handlers have one shape. -/
theorem onReport_eq (S : Settings) (server : ServerId)
    (ho : r.kind.outcome = some (kind, message)) :
    ∃ missing, onReport S server r =
      .stmt (.timer (.cancel server .progressLeases r.task)) fun _ =>
      .stmt (.timer (.cancel server .autoInterrupt r.task)) fun _ =>
      .stmt (.read (.task r.task)) fun x => match x with
        | none => missing
        | some x =>
          if x.isDone = true then .ret (some (ack r))
          else recordOutcome r.task kind message (some (ack r)) := by
  have hterminal : ∀ {kind : TaskEventKind} {message : Option EventText},
      ∃ missing, ((onTerminalReport server r.task kind message).bind fun _ =>
        (.ret (some (ack r)) : Handler (Option ToAgentMessage))) =
      .stmt (.timer (.cancel server .progressLeases r.task)) fun _ =>
      .stmt (.timer (.cancel server .autoInterrupt r.task)) fun _ =>
      .stmt (.read (.task r.task)) fun x => match x with
        | none => missing
        | some x =>
          if x.isDone = true then .ret (some (ack r))
          else recordOutcome r.task kind message (some (ack r)) := by
    intro kind message
    refine ⟨.fail (.doesNotExist "Task"), ?_⟩
    simp only [onTerminalReport, onTerminal, cancelTimer, getTask, ask, bind_eq, issue, stmt_bind, ret_bind]
    congr 1; funext _; congr 1; funext _; congr 1; funext x
    cases x with
    | none => rfl
    | some x =>
      simp only [orDoesNotExist, ret_bind]
      cases x.isDone with
      | true => rfl
      | false => exact bind_assoc _ _ _
  unfold onReport
  cases hk : r.kind with
  | completed => rw [hk] at ho; cases ho; exact hterminal
  | cancelled => rw [hk] at ho; cases ho; exact hterminal
  | failed error => rw [hk] at ho; cases ho; exact hterminal
  | critical error => rw [hk] at ho; cases ho; exact hterminal
  | interrupted =>
    rw [hk] at ho
    cases ho
    refine ⟨.ret (some (ack r)), ?_⟩
    simp only [onAgentInterrupted, cancelTimer, getTask, ask, bind_eq, issue, stmt_bind, ret_bind]
    congr 1; funext _; congr 1; funext _; congr 1; funext x
    cases x with
    | none => rfl
    | some x =>
      dsimp only
      cases x.isDone with
      | true => rfl
      | false => exact bind_assoc _ _ _
  | _ => rw [hk] at ho; cases ho

/-- The first of the two writes of `mirror`. -/
def mirrorRecord (db : Database) (child : TaskId) (kind : TaskEventKind)
    (message : Option EventText) : Database :=
  match db.mirrorTarget child with
  | some (parent, impl) =>
    db.record (PersistBackend.wrapperEvent impl.higherOrderConfig parent child kind none message)
  | none => db

/-- What the first `n` statements of a terminal report make of a database with its task open. -/
def cutOff (db : Database) (id : TaskId) (kind : TaskEventKind) (message : Option EventText)
    (n : Nat) (now now' : Time) : Database :=
  match n with
  | 0 | 1 | 2 | 3 => db
  | 4 => db.record { task := id, kind := kind, message := message }
  | 5 | 6 => db.finish id kind message now
  | 7 => mirrorRecord (db.finish id kind message now) id kind message
  | _ => (db.finish id kind message now).mirror id kind none message now'

/-- What follows the read of the wrapper. -/
def mirrorRest (child : TaskId) (kind : TaskEventKind) (message : Option EventText)
    (reply : Option ToAgentMessage) :
    Option (Option (TaskId × Option Implementation)) → Handler (Option ToAgentMessage)
  | some (some (parent, some impl)) =>
    if impl.higherOrderFor.isNone then .ret reply
    else
      (createEvent (PersistBackend.wrapperEvent impl.higherOrderConfig parent child kind none
        message)).bind fun _ =>
      (saveTask parent { latestEventKind := some kind, done := kind.isTerminal }).bind fun _ =>
        .ret reply
  | _ => .ret reply

theorem unfoldToHigherOrder_eq (reply : Option ToAgentMessage) :
    ((PersistBackend.unfoldToHigherOrder id kind none message).bind fun _ =>
      (.ret reply : Handler (Option ToAgentMessage))) =
      .stmt (.read (.unfoldSource id)) (mirrorRest id kind message reply) := by
  simp only [PersistBackend.unfoldToHigherOrder, ask, bind_eq, issue, stmt_bind, ret_bind]
  congr 1
  funext answer
  rcases answer with _ | _ | ⟨parent, _ | impl⟩
  · rfl
  · rfl
  · rfl
  · simp only [mirrorRest]
    cases impl.higherOrderFor with
    | none => rfl
    | some lower => exact bind_assoc _ _ _

theorem upTo_mirrorRest (S : Settings) (id : TaskId) (kind : TaskEventKind)
    (message : Option EventText) (reply : Option ToAgentMessage) (n : Nat) (i : Nat → Input)
    (w : World) :
    ∃ now, (upTo (exec S) n (mirrorRest id kind message reply (w.db.unfoldSource id)) i w).db =
      match n with
        | 0 => w.db
        | 1 => mirrorRecord w.db id kind message
        | _ => w.db.mirror id kind none message now := by
  have hnone : w.db.mirrorTarget id = none →
      mirrorRest id kind message reply (w.db.unfoldSource id) = .ret reply →
      ∃ now, (upTo (exec S) n (mirrorRest id kind message reply (w.db.unfoldSource id)) i w).db =
        match n with
          | 0 => w.db
          | 1 => mirrorRecord w.db id kind message
          | _ => w.db.mirror id kind none message now := by
    intro hm hr
    refine ⟨0, ?_⟩
    rw [hr, upTo_ret]
    split <;> simp only [mirrorRecord, Database.mirror, hm]
  match hsrc : w.db.unfoldSource id with
  | none => exact hsrc ▸ hnone (by simp only [Database.mirrorTarget, hsrc]) (by rw [hsrc]; rfl)
  | some none => exact hsrc ▸ hnone (by simp only [Database.mirrorTarget, hsrc]) (by rw [hsrc]; rfl)
  | some (some (parent, none)) =>
    exact hsrc ▸ hnone (by simp only [Database.mirrorTarget, hsrc]) (by rw [hsrc]; rfl)
  | some (some (parent, some impl)) =>
    cases hho : impl.higherOrderFor with
    | none =>
      refine hsrc ▸ hnone ?_ ?_
      · simp [Database.mirrorTarget, hsrc, hho]
      · simp [hsrc, mirrorRest, hho]
    | some lower =>
      obtain ⟨_, row, _, _, _, hrow, _⟩ := unfoldSource_eq.mp hsrc
      have htarget : w.db.mirrorTarget id = some (parent, impl) := by
        simp [Database.mirrorTarget, hsrc, hho]
      simp only [mirrorRest, hho, Option.isNone_some, Bool.false_eq_true, if_false, mirrorRecord,
        Database.mirror, htarget]
      match n with
      | 0 => exact ⟨0, rfl⟩
      | 1 =>
        refine ⟨0, ?_⟩
        show (upTo (exec S) 1 (.stmt (.task (.createEvent _)) _) i w).db = _
        rw [upTo_stmt, upTo_zero, exec_createEvent (by rw [PersistBackend.wrapperEvent, hrow]; rfl)]
        rfl
      | n + 2 =>
        refine ⟨(i 1).now, ?_⟩
        show (upTo (exec S) (n + 2) (.stmt (.task (.createEvent _)) _) i w).db = _
        rw [upTo_stmt, exec_createEvent (by rw [PersistBackend.wrapperEvent, hrow]; rfl)]
        cases n <;> rfl

theorem upTo_recordOutcome (S : Settings) (id : TaskId) (kind : TaskEventKind)
    (message : Option EventText) (reply : Option ToAgentMessage) (n : Nat) (i : Nat → Input)
    (w : World) (hthere : (w.db.tasks.get id).isSome = true) :
    ∃ now now', (upTo (exec S) n (recordOutcome id kind message reply) i w).db =
      cutOff w.db id kind message (n + 3) now now' := by
  match n with
  | 0 => exact ⟨0, 0, congrArg World.db (upTo_zero _ _ _ _)⟩
  | 1 =>
    refine ⟨0, 0, ?_⟩
    show (upTo (exec S) 1 (.stmt (.task (.createEvent _)) _) i w).db = _
    rw [upTo_stmt, upTo_zero, exec_createEvent hthere]
    rfl
  | n + 2 =>
    show ∃ now now', (upTo (exec S) (n + 2) (.stmt (.task (.createEvent _)) _) i w).db = _
    rw [upTo_stmt, exec_createEvent hthere]
    show ∃ now now', (upTo (exec S) n ((PersistBackend.unfoldToHigherOrder id kind none
      message).bind fun _ => .ret reply) (fun m => i (m + 2))
        { w with db := w.db.finish id kind message (i 1).now }).db = _
    rw [unfoldToHigherOrder_eq]
    match n with
    | 0 => exact ⟨(i 1).now, 0, rfl⟩
    | n + 1 =>
      obtain ⟨now', h⟩ := upTo_mirrorRest S id kind message reply n
        (fun m => i (m + 3)) { w with db := w.db.finish id kind message (i 1).now }
      refine ⟨(i 1).now, now', Eq.trans h ?_⟩
      match n with
      | 0 => rfl
      | 1 => rfl
      | n + 2 => rfl

/-- A handling of the report that is cut off after some statements. -/
structure Attempt where
  server : ServerId
  inputs : Nat → Input
  statements : Nat

def Attempt.run (S : Settings) (r : Report) (w : World) (a : Attempt) : World :=
  upTo (exec S) a.statements (PersistBackend.onReport S a.server r) a.inputs w

/-- What an attempt makes of the database. -/
theorem attempt_db (S : Settings) (ho : r.kind.outcome = some (kind, message)) (w : World)
    (a : Attempt) {task : Task} (hg : w.db.tasks.get r.task = some task) :
    ∃ now now', (a.run S r w).db =
      if task.isDone then w.db else cutOff w.db r.task kind message a.statements now now' := by
  obtain ⟨missing, heq⟩ := onReport_eq S a.server ho
  unfold Attempt.run
  rw [heq]
  match a.statements with
  | 0 => exact ⟨0, 0, by split <;> rfl⟩
  | 1 => exact ⟨0, 0, by split <;> rfl⟩
  | 2 => exact ⟨0, 0, by split <;> rfl⟩
  | n + 3 =>
    rw [upTo_stmt, upTo_stmt, upTo_stmt]
    generalize hw' : (exec S _ _ (exec S _ _ w).2).2 = w'
    have hdb : w'.db = w.db := by rw [← hw']; rfl
    have hread : ∀ i, exec S i (.read (.task r.task)) w' = (some task, w') := fun i => by
      rw [← hg, ← hdb]; rfl
    rw [hread]
    dsimp only
    cases hd : task.isDone with
    | true => exact ⟨0, 0, by rw [if_pos rfl, upTo_ret, if_pos rfl, hdb]⟩
    | false =>
      have hthere : (w'.db.tasks.get r.task).isSome = true := by rw [hdb, hg]; rfl
      obtain ⟨now, now', h⟩ := upTo_recordOutcome S r.task kind message
        (some (PersistBackend.ack r)) n (fun m => a.inputs (m + 3)) w' hthere
      exact ⟨now, now', Eq.trans h (by rw [hdb]; rfl)⟩

/-! ## The progress of the database -/

def status (t : TaskId) (db : Database) : Option Status :=
  (db.tasks.get t).map fun task => (task.isDone, (terminalEvents db t).map (·.kind))

def progress (t : TaskId) (db : Database) : Option Progress :=
  (status t db).bind fun s => match db.mirrorTarget t with
    | some (parent, _) => (status parent db).map fun w => ⟨s, some w⟩
    | none => some ⟨s, none⟩

variable {db : Database} {now now' : Time}

theorem status_record {e : TaskEvent} (hk : e.kind.isTerminal = true) :
    status t (db.record e) =
      (status t db).map fun s => if t = e.task then (s.1, s.2 ++ [e.kind]) else s := by
  unfold status
  show Option.map _ (db.tasks.get t) = _
  rw [Option.map_map]
  congr 1
  funext task
  show (task.isDone, List.map _ (terminalEvents (db.record e) t)) = _
  rw [show terminalEvents (db.record e) t = _ from terminalEvents_append]
  by_cases ht : t = e.task
  · subst ht; simp [hk]
  · simp [ht, Ne.symm ht]

theorem status_saveTask {u : TaskUpdate} :
    status t (db.saveTask id u now) =
      (status t db).map fun s => if t = id then (s.1 || u.done, s.2) else s := by
  unfold status
  rw [Database.get_saveTask, terminalEvents_of_events Database.saveTask_events]
  by_cases ht : t = id
  · simp only [if_pos ht, Option.map_map]
    rfl
  · simp only [if_neg ht, Option.map_map]
    rfl

/-- What the event and the save that end `e.task` do to every status. -/
theorem status_close {e : TaskEvent} {u : TaskUpdate} (hk : e.kind.isTerminal = true)
    (hu : u.done = true) :
    status t ((db.record e).saveTask e.task u now) =
      (status t db).map fun s => if t = e.task then (true, s.2 ++ [e.kind]) else s := by
  rw [status_saveTask, status_record hk, Option.map_map]
  congr 1
  funext s
  by_cases ht : t = e.task <;> simp [ht, hu]

/-- The progress after a write that acts on the task as `f` and on its wrapper as `g`. -/
theorem progress_congr {db' : Database} {p : Progress} (f g : Status → Status)
    (hp : progress t db = some p) (hm : db'.mirrorTarget t = db.mirrorTarget t)
    (ht : status t db' = (status t db).map f)
    (hw : ∀ parent impl, db.mirrorTarget t = some (parent, impl) →
      status parent db' = (status parent db).map g) :
    progress t db' = some ⟨f p.task, p.wrapper.map g⟩ := by
  obtain ⟨s, hs, hp⟩ := Option.bind_eq_some_iff.mp hp
  unfold progress
  rw [ht, hs, hm]
  match htarget : db.mirrorTarget t with
  | none =>
    rw [htarget] at hp
    cases hp
    rfl
  | some (parent, impl) =>
    rw [htarget] at hp
    obtain ⟨w, hparent, rfl⟩ := Option.map_eq_some_iff.mp hp
    show ((status parent db').map fun w => _) = _
    rw [hw parent impl htarget, hparent]
    rfl

/-- The task is no wrapper of its own. -/
def NotOwnWrapper (t : TaskId) (db : Database) : Prop :=
  ∀ parent impl, db.mirrorTarget t = some (parent, impl) → parent ≠ t

theorem map_if_neg {c : Prop} [Decidable c] {x : Option Status} {f : Status → Status} (h : ¬ c) :
    (x.map fun s => if c then f s else s) = x := by
  simp [h]

theorem map_if_pos {c : Prop} [Decidable c] {x : Option Status} {f : Status → Status} (h : c) :
    (x.map fun s => if c then f s else s) = x.map f := by
  simp [h]

/-- The event on the task. -/
theorem progress_record {p : Progress} (hk : kind.isTerminal = true) (hself : NotOwnWrapper t db)
    (hp : progress t db = some p) :
    progress t (db.record { task := t, kind := kind, message := message }) =
      some { p with task := (p.task.1, p.task.2 ++ [kind]) } := by
  refine (progress_congr (fun s => (s.1, s.2 ++ [kind])) id hp Database.mirrorTarget_record
    ((status_record hk).trans (map_if_pos rfl)) fun parent impl h => ?_).trans (by simp)
  rw [Option.map_id, id]
  exact (status_record hk).trans (map_if_neg (hself parent impl h))

/-- The event and the save on the task. -/
theorem progress_finish {p : Progress} (hk : kind.isTerminal = true) (hself : NotOwnWrapper t db)
    (hp : progress t db = some p) :
    progress t (db.finish t kind message now) =
      some { p with task := (true, p.task.2 ++ [kind]) } := by
  refine (progress_congr (fun s => (true, s.2 ++ [kind])) id hp Database.mirrorTarget_finish
    ((status_close hk rfl).trans (map_if_pos rfl)) fun parent impl h => ?_).trans (by simp)
  rw [Option.map_id, id]
  exact (status_close hk rfl).trans (map_if_neg (hself parent impl h))

/-- The event on the wrapper. -/
theorem progress_mirrorRecord {p : Progress} (hk : kind.isTerminal = true)
    (hself : NotOwnWrapper t db) (hp : progress t db = some p) :
    progress t (mirrorRecord db t kind message) =
      some { p with wrapper := p.wrapper.map fun w => (w.1, w.2 ++ [kind]) } := by
  cases htarget : db.mirrorTarget t with
  | none =>
    obtain ⟨s, _, hs⟩ := Option.bind_eq_some_iff.mp hp
    rw [htarget] at hs
    cases hs
    simpa [mirrorRecord, htarget] using hp
  | some target =>
    obtain ⟨parent, impl⟩ := target
    simp only [mirrorRecord, htarget]
    refine progress_congr id (fun s => (s.1, s.2 ++ [kind])) hp Database.mirrorTarget_record ?_
      fun parent' impl' h => ?_
    · rw [Option.map_id, id]
      exact (status_record hk).trans (map_if_neg (hself parent impl htarget).symm)
    · cases htarget.symm.trans h
      exact (status_record hk).trans (map_if_pos rfl)

/-- The event and the save on the wrapper. -/
theorem progress_mirror {p : Progress} (hk : kind.isTerminal = true)
    (hself : NotOwnWrapper t db) (hp : progress t db = some p) :
    progress t (db.mirror t kind none message now) =
      some { p with wrapper := p.wrapper.map fun w => (true, w.2 ++ [kind]) } := by
  cases htarget : db.mirrorTarget t with
  | none =>
    obtain ⟨s, _, hs⟩ := Option.bind_eq_some_iff.mp hp
    rw [htarget] at hs
    cases hs
    simpa [Database.mirror, htarget] using hp
  | some target =>
    obtain ⟨parent, impl⟩ := target
    simp only [Database.mirror, htarget]
    refine progress_congr id (fun s => (true, s.2 ++ [kind])) hp
      (Database.mirrorTarget_saveTask.trans Database.mirrorTarget_record) ?_
      fun parent' impl' h => ?_
    · rw [Option.map_id, id]
      exact (status_close hk hk).trans (map_if_neg (hself parent impl htarget).symm)
    · cases htarget.symm.trans h
      exact (status_close hk hk).trans (map_if_pos rfl)

/-- The cut-off handler does to the progress what `Progress.cut` says. -/
theorem progress_cutOff {p : Progress} {n : Nat} (hk : kind.isTerminal = true)
    (hself : NotOwnWrapper t db) (hp : progress t db = some p) (hopen : p.task.1 = false) :
    progress t (cutOff db t kind message n now now') = some (p.cut kind n) := by
  have hself' : NotOwnWrapper t (db.finish t kind message now) := fun parent impl h =>
    hself parent impl (Database.mirrorTarget_finish.symm.trans h)
  have hfinish : progress t (db.finish t kind message now) =
      some { p with task := (true, p.task.2 ++ [kind]) } := progress_finish hk hself hp
  unfold Progress.cut
  rw [if_neg (by rw [hopen]; exact Bool.false_ne_true)]
  match n with
  | 0 | 1 | 2 | 3 => exact hp
  | 4 => rw [← hopen]; exact progress_record hk hself hp
  | 5 | 6 => exact hfinish
  | 7 => exact progress_mirrorRecord hk hself' hfinish
  | n + 8 => exact progress_mirror hk hself' hfinish

/-! ## Runs -/

/-- The task is there, and its parent is another task that is there. -/
def Lineage (t : TaskId) (db : Database) : Prop :=
  ∃ task, db.tasks.get t = some task ∧ ∀ parent, task.parent = some parent →
    parent ≠ t ∧ (db.tasks.get parent).isSome = true

theorem Lineage.evolves {db' : Database} (h : Lineage t db) (hev : db.Evolves db') :
    Lineage t db' := by
  obtain ⟨task, hg, hp⟩ := h
  obtain ⟨task', hg', he⟩ := hev.tasks hg
  refine ⟨task', hg', fun parent hparent => ?_⟩
  obtain ⟨hne, hthere⟩ := hp parent (he.parent_eq ▸ hparent)
  obtain ⟨row, hrow⟩ := Option.isSome_iff_exists.mp hthere
  obtain ⟨row', hrow', _⟩ := hev.tasks hrow
  exact ⟨hne, by rw [hrow']; rfl⟩

theorem Lineage.mirrorTarget_eq {db' : Database} (h : Lineage t db) (hev : db.Evolves db') :
    db'.mirrorTarget t = db.mirrorTarget t := by
  obtain ⟨task, hg, hp⟩ := h
  obtain ⟨task', hg', he⟩ := hev.tasks hg
  have hsrc : db'.unfoldSource t = db.unfoldSource t := by
    simp only [Database.unfoldSource, hg, hg', Option.map_some, he.parent_eq]
    cases hparent : task.parent with
    | none => rfl
    | some parent =>
      obtain ⟨row, hrow⟩ := Option.isSome_iff_exists.mp (hp parent hparent).2
      obtain ⟨row', hrow', her⟩ := hev.tasks hrow
      simp [hrow, hrow', her.implementation_eq, hev.implementations]
  unfold Database.mirrorTarget
  rw [hsrc]

theorem Lineage.notOwnWrapper (h : Lineage t db) : NotOwnWrapper t db := by
  intro parent impl htarget
  obtain ⟨task, hg, hp⟩ := h
  obtain ⟨task', _, _, hg', hparent, _⟩ := unfoldSource_eq.mp (Database.mirrorTarget_eq.mp htarget).1
  cases hg.symm.trans hg'
  exact (hp parent hparent).1

/-- The statement writes neither on the task nor on its wrapper. -/
def Aside (t : TaskId) (_ : Input) (c : Stmt) (w : World) : Prop :=
  c.writesOn ≠ some t ∧ ∀ parent impl, w.db.mirrorTarget t = some (parent, impl) →
    c.writesOn ≠ some parent

/-- A task with a lineage, and how far its report has come. -/
structure Tracks (t : TaskId) (p : Progress) (db : Database) : Prop where
  lineage : Lineage t db
  progress : progress t db = some p

theorem status_exec {i : Input} {c : Stmt} {s : Status} (hc : c.writesOn ≠ some t)
    (hs : status t w.db = some s) : status t (exec S i c w).2.db = some s := by
  obtain ⟨task, hg, rfl⟩ := Option.map_eq_some_iff.mp hs
  obtain ⟨hg', hevents⟩ := exec_aside (S := S) (i := i) hc hg
  unfold status
  rw [hg', hevents]
  rfl

theorem Tracks.aside {i : Input} {c : Stmt} {p : Progress} (hc : Aside t i c w)
    (h : Tracks t p w.db) : Tracks t p (exec S i c w).2.db := by
  refine ⟨h.lineage.evolves exec_evolves, ?_⟩
  have hp := h.progress
  unfold Crash.progress at hp ⊢
  rw [h.lineage.mirrorTarget_eq exec_evolves]
  obtain ⟨s, hs, hp⟩ := Option.bind_eq_some_iff.mp hp
  rw [status_exec hc.1 hs]
  match htarget : w.db.mirrorTarget t with
  | none => rw [htarget] at hp; exact hp
  | some (parent, impl) =>
    rw [htarget] at hp
    obtain ⟨ws, hws, rfl⟩ := Option.map_eq_some_iff.mp hp
    show (status parent _).map _ = _
    rw [status_exec (hc.2 parent impl htarget) hws]
    rfl

theorem upTo_evolves {α : Type} (n : Nat) (p : Handler α) (i : Nat → Input) (w : World) :
    w.db.Evolves (upTo (exec S) n p i w).db := by
  induction p generalizing n i w with
  | ret a => rw [upTo_ret]; exact .refl
  | fail e => rw [upTo_fail]; exact .refl
  | stmt c k ih =>
    cases n with
    | zero => rw [upTo_zero]; exact .refl
    | succ n => rw [upTo_stmt]; exact exec_evolves.trans (ih _ _ _ _)

theorem Tracks.isDone {p : Progress} {task : Task} (h : Tracks t p db)
    (hg : db.tasks.get t = some task) : p.task.1 = task.isDone := by
  obtain ⟨s, hs, hp⟩ := Option.bind_eq_some_iff.mp h.progress
  have hs' : s.1 = task.isDone := by
    rw [status, hg] at hs
    cases hs
    rfl
  split at hp
  · obtain ⟨ws, _, rfl⟩ := Option.map_eq_some_iff.mp hp
    exact hs'
  · cases hp
    exact hs'

/-- An attempt cuts the progress off where it is cut off itself. -/
theorem Tracks.attempt {p : Progress} (ho : r.kind.outcome = some (kind, message))
    (h : Tracks r.task p w.db) (a : Attempt) :
    Tracks r.task (p.cut kind a.statements) (a.run S r w).db := by
  refine ⟨h.lineage.evolves (upTo_evolves _ _ _ _), ?_⟩
  obtain ⟨task, hg, _⟩ := id h.lineage
  obtain ⟨now, now', hdb⟩ := attempt_db S ho w a hg
  have hdone := h.isDone hg
  rw [hdb]
  cases hd : task.isDone with
  | true =>
    rw [if_pos rfl, Progress.cut_of_done (hdone.trans hd)]
    exact h.progress
  | false =>
    rw [if_neg Bool.false_ne_true]
    exact progress_cutOff (ReportKind.outcome_terminal ho) h.lineage.notOwnWrapper h.progress
      (hdone.trans hd)

/-- One step of a run: an attempt at the report, or any other call, which runs to its end. -/
inductive Step where
  | attempt (a : Attempt)
  | other (c : Call) (i : Nat → Input)

def Step.run (S : Settings) (r : Report) (w : World) : Step → World
  | attempt a => a.run S r w
  | other c i => runAlone S (c.code S) i w

/-- After how many statements the attempts were cut off. -/
def crashes (steps : List Step) : List Nat :=
  steps.filterMap fun
    | .attempt a => some a.statements
    | .other _ _ => none

/-- The other calls write neither on the task of the report nor on its wrapper. -/
def OthersAside (S : Settings) (r : Report) : World → List Step → Prop
  | _, [] => True
  | w, .attempt a :: steps => OthersAside S r (a.run S r w) steps
  | w, .other c i :: steps =>
    Meets (exec S) (Aside r.task) (c.code S) i w ∧
      OthersAside S r (runAlone S (c.code S) i w) steps

theorem Tracks.steps {p : Progress} {steps : List Step}
    (ho : r.kind.outcome = some (kind, message)) (h : Tracks r.task p w.db)
    (haside : OthersAside S r w steps) :
    Tracks r.task ((crashes steps).foldl (Progress.cut kind) p)
      (steps.foldl (Step.run S r) w).db := by
  induction steps generalizing w p with
  | nil => exact h
  | cons step steps ih =>
    cases step with
    | attempt a => exact ih (h.attempt ho a) haside
    | other c i =>
      have hkeeps : Keeps (exec S) (Aside r.task) (fun w => Tracks r.task p w.db) (c.code S) :=
        .of_steps fun _ _ _ hc h => h.aside hc
      exact ih (hkeeps.run h haside.1) haside.2

/-! ## The acknowledged report -/

/-- The task is done, and has one terminal event, of the kind. -/
structure Settled (t : TaskId) (kind : TaskEventKind) (db : Database) : Prop where
  done : ∃ task, db.tasks.get t = some task ∧ task.isDone = true
  events : (terminalEvents db t).map (·.kind) = [kind]

/-- The claim on a database: the task is settled, and so is its wrapper if it has one. -/
structure FullyRecorded (t : TaskId) (kind : TaskEventKind) (db : Database) : Prop where
  task : Settled t kind db
  wrapper : ∀ parent impl, db.mirrorTarget t = some (parent, impl) → Settled parent kind db

/-- The report is the first to say how the task ended. -/
structure Pending (t : TaskId) (db : Database) : Prop where
  lineage : Lineage t db
  task : status t db = some (false, [])
  wrapper : ∀ parent impl, db.mirrorTarget t = some (parent, impl) →
    status parent db = some (false, [])

/-- The number of statements of the handler up to its last write. -/
def lastWrite (t : TaskId) (db : Database) : Nat := if (db.mirrorTarget t).isSome then 8 else 5

theorem settled_iff : Settled t kind db ↔ status t db = some (true, [kind]) := by
  constructor
  · rintro ⟨⟨task, hg, hd⟩, he⟩
    simp [status, hg, hd, he]
  · intro h
    obtain ⟨task, hg, hs⟩ := Option.map_eq_some_iff.mp h
    obtain ⟨hd, he⟩ := Prod.mk.inj hs
    exact ⟨⟨task, hg, hd⟩, he⟩

theorem Tracks.fullyRecorded_iff {p : Progress} (h : Tracks t p db) :
    FullyRecorded t kind db ↔ p.Recorded kind := by
  obtain ⟨s, hs, hp⟩ := Option.bind_eq_some_iff.mp h.progress
  match htarget : db.mirrorTarget t with
  | none =>
    rw [htarget] at hp
    cases hp
    refine ⟨fun hr => ⟨?_, nofun⟩, fun hr => ⟨settled_iff.mpr (hs.trans (congrArg some hr.1)), ?_⟩⟩
    · exact Option.some.inj (hs.symm.trans (settled_iff.mp hr.task))
    · intro parent impl hsome
      cases htarget.symm.trans hsome
  | some (parent, impl) =>
    rw [htarget] at hp
    obtain ⟨ws, hws, rfl⟩ := Option.map_eq_some_iff.mp hp
    constructor
    · intro hr
      refine ⟨Option.some.inj (hs.symm.trans (settled_iff.mp hr.task)), fun w hw => ?_⟩
      cases hw
      exact Option.some.inj (hws.symm.trans (settled_iff.mp (hr.wrapper parent impl htarget)))
    · intro hr
      refine ⟨settled_iff.mpr (hs.trans (congrArg some hr.1)), fun parent' impl' hsome => ?_⟩
      cases htarget.symm.trans hsome
      exact settled_iff.mpr (hws.trans (congrArg some (hr.2 ws rfl)))

theorem Pending.tracks (h : Pending t db) :
    ∃ p, Tracks t p db ∧ p.Fresh ∧ p.lastWrite = lastWrite t db := by
  unfold lastWrite
  match htarget : db.mirrorTarget t with
  | none =>
    refine ⟨⟨(false, []), none⟩, ⟨h.lineage, ?_⟩, ⟨rfl, nofun⟩, rfl⟩
    rw [progress, h.task, Option.bind_some, htarget]
  | some (parent, impl) =>
    refine ⟨⟨(false, []), some (false, [])⟩, ⟨h.lineage, ?_⟩, ⟨rfl, fun w hw => ?_⟩, rfl⟩
    · rw [progress, h.task, Option.bind_some, htarget]
      show (status parent db).map _ = _
      rw [h.wrapper parent impl htarget]
      rfl
    · cases hw
      rfl

/-- A handling that does not crash ends with the acknowledgement. -/
theorem acknowledged (server : ServerId) (ho : r.kind.outcome = some (kind, message))
    (hthere : (w.db.tasks.get r.task).isSome = true) :
    ((PersistBackend.onReport S server r).run (exec S) i w).result =
      .ok (some (PersistBackend.ack r)) := by
  have hrecord : ∀ w : World, (w.db.tasks.get r.task).isSome = true →
      wp (exec S) anyStep (recordOutcome r.task kind message (some (PersistBackend.ack r)))
        (fun result _ => result = .ok (some (PersistBackend.ack r))) w := fun w hthere =>
    wp_bind.mpr (PersistBackend.wp_finishTask hthere fun _ =>
      wp_bind.mpr (PersistBackend.wp_unfoldToHigherOrder fun _ => rfl))
  obtain ⟨missing, heq⟩ := onReport_eq S server ho
  rw [heq]
  refine wp_run (Q := fun result _ => result = .ok _) ?_ meets_any
  intro i _ j _ k _
  obtain ⟨task, hg⟩ := Option.isSome_iff_exists.mp hthere
  generalize hw' : (exec S j _ (exec S i _ w).2).2 = w'
  have hg' : w'.db.tasks.get r.task = some task := by rw [← hw']; exact hg
  have hread : exec S k (.read (.task r.task)) w' = (some task, w') := by rw [← hg']; rfl
  rw [hread]
  dsimp only
  split
  · rfl
  · exact hrecord w' (by rw [hg']; rfl)

/-- **The acknowledged report** is fully recorded exactly if the first attempt that got as far as
its event was not cut off before its last write. -/
theorem acked_recorded_iff (S : Settings) (w : World) (r : Report) (kind : TaskEventKind)
    (message : Option EventText) (ho : r.kind.outcome = some (kind, message))
    (hpending : Pending r.task w.db) (steps : List Step) (haside : OthersAside S r w steps)
    (server : ServerId) (i : Nat → Input) :
    let acked := (PersistBackend.onReport S server r).run (exec S) i
      (steps.foldl (Step.run S r) w)
    acked.result = .ok (some (PersistBackend.ack r)) ∧
      (FullyRecorded r.task kind acked.state.db ↔
        CleanCrashes (lastWrite r.task w.db) (crashes steps)) := by
  intro acked
  obtain ⟨p, htracks, hfresh, hlast⟩ := hpending.tracks
  have hsteps := htracks.steps ho haside
  obtain ⟨task, hg, _⟩ := id hsteps.lineage
  refine ⟨acknowledged server ho (by rw [hg]; rfl), ?_⟩
  let whole : Attempt := ⟨server, i, (trace (exec S) (PersistBackend.onReport S server r) i
    (steps.foldl (Step.run S r) w)).length + 8⟩
  have hwhole : whole.run S r (steps.foldl (Step.run S r) w) = acked.state :=
    upTo_of_length_le _ _ _ _ _ (Nat.le_add_right _ 8)
  rw [← hwhole, (hsteps.attempt ho whole).fullyRecorded_iff, Progress.recorded_iff hfresh, hlast]

section Crashed

/-- The running agent with task 1, an open wrapper, and task 2, the child that runs. -/
def wrappedWorld : World :=
  { runningWorld .none with db := { (runningWorld .none).db with
      implementations := ((runningWorld .none).db.implementations.insert
        { interface := "wrap", action := 1, agent := 1, higherOrderFor := some 1 })
      tasks := (Table.empty.insert {
        implementation := some 2, action := 1, reference := "outer", agent := 1
        latestEventKind := .started, latestInstructKind := .assign }).insert {
        implementation := some 1, action := 1, reference := "inner", agent := 1
        parent := some 1, root := some 1
        latestEventKind := .started, latestInstructKind := .assign } } }

def completed : Report := { id := 3, task := 2, kind := .completed }

def inputs : Nat → Input := fun _ => default

/-- The handlings of the report are cut off after so many statements, and the last one is not. -/
def afterCrashes (ns : List Nat) : Outcome Error (Option ToAgentMessage) Input World :=
  (PersistBackend.onReport {} 0 completed).run (exec {}) inputs
    ((ns.map fun n => Step.attempt ⟨0, inputs, n⟩).foldl (Step.run {} completed) wrappedWorld)

theorem pending_wrappedWorld : Pending 2 wrappedWorld.db := by
  refine ⟨⟨_, rfl, ?_⟩, rfl, ?_⟩
  · rintro parent hparent
    cases hparent
    exact ⟨by decide, rfl⟩
  · intro parent impl h
    cases h
    rfl

theorem acked_recorded_iff_clean :
    (afterCrashes [2, 9]).result = .ok (some (PersistBackend.ack completed)) ∧
      FullyRecorded 2 .completed (afterCrashes [2, 9]).state.db := by
  have h := acked_recorded_iff {} wrappedWorld completed .completed none rfl pending_wrappedWorld
    [.attempt ⟨0, inputs, 2⟩, .attempt ⟨0, inputs, 9⟩] trivial 0 inputs
  exact ⟨h.1, h.2.mpr (.inl ⟨by decide, .inr (by decide)⟩)⟩

/-- The server crashes between the event of the task and its save: the resent report records a
second terminal event. -/
theorem crash_after_event_records_twice :
    (afterCrashes [4]).result = .ok (some (PersistBackend.ack completed)) ∧
      ¬ FullyRecorded 2 .completed (afterCrashes [4]).state.db := by
  refine ⟨rfl, fun h => ?_⟩
  have htwice : (terminalEvents (afterCrashes [4]).state.db 2).map (·.kind) =
      [.completed, .completed] := by decide +kernel
  cases htwice.symm.trans h.task.events

end Crashed

end Crash
end Rekuest
