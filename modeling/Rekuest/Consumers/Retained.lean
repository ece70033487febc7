import Rekuest.ModelPersistBackend
import Rekuest.Tasks.Reports

/-!
# Rekuest.Consumers.Retained

The reports that an agent keeps until they are acknowledged, and what becomes of one on its way
through the router.

* `ReportKind.tolerant`: the kinds whose handler answers where the task is missing.
* `Answerable`: the id is one, the task is there or the handler tolerates that it is not, and an
  event can store the text.
* `retained_acked_iff`: the report is acknowledged exactly where it is answerable.
-/

namespace Rekuest

open Interleave Interleave.Prog

/-- The handler looks the task up under `except DoesNotExist`. -/
def ReportKind.tolerant {Text : Type} : ReportKind Text → Bool
  | started => true
  | paused => true
  | resumed => true
  | interrupted => true
  | _ => false

/-- The text of a failure. -/
def ReportKind.error? {Text : Type} : ReportKind Text → Option Text
  | failed error => some error
  | critical error => some error
  | _ => none

section

variable {k : ReportKind String} {kind : ReportKind}

theorem VarChar.of?_isSome {n : Nat} {text : String} :
    (VarChar.of? n text).isSome = true ↔ VarChar.Takes n text := by
  unfold VarChar.of?
  split
  · simp [*]
  · simp [*]

/-- An event can store a report that is acknowledged, unless it is a failure with too long a text,
or with a NUL in it. -/
theorem stored?_isSome_iff (hacked : k.isAcked = true) : k.stored?.isSome = true ↔
    ∀ error, k.error? = some error → VarChar.Takes 30000 error := by
  cases k with
  | failed error => simp [ReportKind.stored?, ReportKind.error?, VarChar.of?_isSome]
  | critical error => simp [ReportKind.stored?, ReportKind.error?, VarChar.of?_isSome]
  | log message => cases hacked
  | progress percent message => cases hacked
  | «yield» returns => cases hacked
  | _ => simp [ReportKind.stored?, ReportKind.error?]

/-- What is stored is of the kind that was reported. -/
theorem tolerant_stored? (h : k.stored? = some kind) :
    kind.isAcked = k.isAcked ∧ kind.tolerant = k.tolerant := by
  cases k with
  | failed error =>
    obtain ⟨text, _, rfl⟩ := Option.map_eq_some_iff.mp h
    exact ⟨rfl, rfl⟩
  | critical error =>
    obtain ⟨text, _, rfl⟩ := Option.map_eq_some_iff.mp h
    exact ⟨rfl, rfl⟩
  | log message =>
    obtain ⟨text, _, rfl⟩ := Option.map_eq_some_iff.mp h
    exact ⟨rfl, rfl⟩
  | progress percent message =>
    simp only [ReportKind.stored?] at h
    split at h
    · cases message with
      | none =>
        cases h
        exact ⟨rfl, rfl⟩
      | some text =>
        obtain ⟨text', _, rfl⟩ := Option.map_eq_some_iff.mp h
        exact ⟨rfl, rfl⟩
    · cases h
  | _ =>
    cases h
    exact ⟨rfl, rfl⟩

/-- Of those that are acknowledged, only failures can be refused. -/
theorem refused_of_stored?_eq_none (hacked : k.isAcked = true) (h : k.stored? = none) :
    ∃ error, k = .failed error ∨ k = .critical error := by
  cases k with
  | failed error => exact ⟨error, .inl rfl⟩
  | critical error => exact ⟨error, .inr rfl⟩
  | log message => cases hacked
  | progress percent message => cases hacked
  | «yield» returns => cases hacked
  | _ => cases h

end

namespace PersistBackend

variable {S : Settings} {server : ServerId} {w : World} {id : TaskId}

/-! ## The handlers -/

/-- The end of a report on a task that is there. -/
theorem answers_finishOpen {kind : TaskEventKind} {message : Option EventText} {x : Task}
    (hx : w.db.tasks.get id = some x) :
    wp (exec S) anyStep
      (if x.isDone = true then .ret () else
        (finishTask id kind message).bind fun _ => unfoldToHigherOrder id kind none message)
      (fun r _ => r = .ok ()) w := by
  cases hd : x.isDone with
  | true => rfl
  | false =>
    refine wp_bind.mpr (wp_finishTask (by rw [hx]; rfl) fun now => ?_)
    exact wp_unfoldToHigherOrder fun _ => rfl

/-- The handler of a terminal report: what comes before the event. -/
theorem answers_onTerminal {finish : Handler Unit} {Q : Except Error Unit → Prop}
    (hmissing : w.db.tasks.get id = none → Q (.error (.doesNotExist "Task")))
    (hdone : ∀ x, w.db.tasks.get id = some x → x.isDone = true → Q (.ok ()))
    (hopen : ∀ x w', w'.db = w.db → w.db.tasks.get id = some x → x.isDone = false →
      wp (exec S) anyStep finish (fun r _ => Q r) w') :
    wp (exec S) anyStep (onTerminal server id finish) (fun r _ => Q r) w := by
  refine wp_bind.mpr (wp_cancelTimer (wp_bind.mpr (wp_cancelTimer (wp_bind.mpr
    (wp_ask fun i => ?_)))))
  show wp _ _ ((orDoesNotExist "Task" (w.db.tasks.get id)).bind _) _ _
  cases hx : w.db.tasks.get id with
  | none => exact hmissing hx
  | some x =>
    show wp _ _ (if x.isDone = true then _ else _) _ _
    cases hd : x.isDone with
    | true => exact hdone x hx hd
    | false => exact hopen x _ rfl hx hd

/-- A terminal report raises exactly where the task is missing. -/
theorem answers_onTerminalReport {kind : TaskEventKind} {message : Option EventText} :
    wp (exec S) anyStep (onTerminalReport server id kind message)
      (fun r _ => r = if (w.db.tasks.get id).isSome then .ok () else .error (.doesNotExist "Task"))
      w := by
  refine answers_onTerminal (fun hx => by rw [hx]; rfl) (fun x hx _ => by rw [hx]; rfl)
    fun x w' hw' hx _ => wp_bind.mpr (wp_finishTask (by rw [hw', hx]; rfl) fun now => ?_)
  exact wp_unfoldToHigherOrder fun _ => by rw [hx]; rfl

theorem answers_onAgentInterrupted :
    wp (exec S) anyStep (onAgentInterrupted server id) (fun r _ => r = .ok ()) w := by
  refine wp_bind.mpr (wp_cancelTimer (wp_bind.mpr (wp_cancelTimer (wp_bind.mpr
    (wp_ask fun i => ?_)))))
  dsimp only [after, Query.eval, World.setTimer]
  cases hx : w.db.tasks.get id with
  | none => rfl
  | some x => exact answers_finishOpen hx

variable (server) in
theorem answers_confirm {kind : TaskEventKind} :
    wp (exec S) anyStep (onNonterminalConfirm server id kind false) (fun r _ => r = .ok ()) w := by
  refine wp_bind.mpr (wp_ask fun i => ?_)
  dsimp only [after, Query.eval]
  cases hx : w.db.tasks.get id with
  | none => rfl
  | some x =>
    show wp _ _ (if x.isDone = true then _ else _) _ _
    cases hd : x.isDone with
    | true => rfl
    | false => exact wp_bind.mpr (wp_createEvent (by rw [hx]; rfl) (wp_saveTask fun _ => rfl))

theorem answers_onNonterminalConfirm {kind : TaskEventKind} {cancelLease : Bool} :
    wp (exec S) anyStep (onNonterminalConfirm server id kind cancelLease)
      (fun r _ => r = .ok ()) w := by
  cases cancelLease with
  | false => exact answers_confirm server
  | true => exact wp_bind.mpr (wp_cancelTimer (answers_confirm server))

/-- What the handler of a retained report answers. -/
def reportAnswer (db : Database) (r : Report) : Except Error (Option ToAgentMessage) :=
  if r.kind.tolerant || (db.tasks.get r.task).isSome then .ok (some (ack r))
  else .error (.doesNotExist "Task")

theorem answers_onReport {r : Report} (hacked : r.kind.isAcked = true) :
    wp (exec S) anyStep (onReport S server r) (fun a _ => a = reportAnswer w.db r) w := by
  -- what follows the handler is the acknowledgement
  have htolerant : ∀ {p : Handler Unit}, wp (exec S) anyStep p (fun a _ => a = .ok ()) w →
      r.kind.tolerant = true →
      wp (exec S) anyStep (p.bind fun _ => .ret (some (ack r)))
        (fun a _ => a = reportAnswer w.db r) w := by
    intro p hp ht
    refine wp_bind.mpr (wp_mono ?_ hp)
    rintro _ w' rfl
    show Except.ok _ = _
    simp [reportAnswer, ht]
  have hterminal : ∀ {kind : TaskEventKind} {message : Option EventText},
      r.kind.tolerant = false →
      wp (exec S) anyStep
        ((onTerminalReport server r.task kind message).bind fun _ => .ret (some (ack r)))
        (fun a _ => a = reportAnswer w.db r) w := by
    intro kind message ht
    refine wp_bind.mpr (wp_mono ?_ answers_onTerminalReport)
    rintro _ w' rfl
    cases hx : (w.db.tasks.get r.task).isSome with
    | true =>
      show Except.ok _ = _
      simp [reportAnswer, ht, hx]
    | false =>
      show Except.error _ = _
      simp [reportAnswer, ht, hx]
  unfold onReport
  cases hk : r.kind with
  | started => exact htolerant answers_onNonterminalConfirm (by rw [hk]; rfl)
  | paused => exact htolerant answers_onNonterminalConfirm (by rw [hk]; rfl)
  | resumed => exact htolerant answers_onNonterminalConfirm (by rw [hk]; rfl)
  | interrupted => exact htolerant answers_onAgentInterrupted (by rw [hk]; rfl)
  | completed => exact hterminal (by rw [hk]; rfl)
  | cancelled => exact hterminal (by rw [hk]; rfl)
  | failed error => exact hterminal (by rw [hk]; rfl)
  | critical error => exact hterminal (by rw [hk]; rfl)
  | log message => simp [hk, ReportKind.isAcked] at hacked
  | progress progress message => simp [hk, ReportKind.isAcked] at hacked
  | «yield» returns => simp [hk, ReportKind.isAcked] at hacked

end PersistBackend

/-! ## The router -/

namespace ModelPersistBackend

variable (S : Settings) (server : ServerId) (toPython : String → Except Error TaskId)

/-- The id is one; the task is there, or the handler tolerates that it is not; and if the task is
still to be ended, the text of the failure has room in an event. -/
def Answerable (db : Database) (m : WireReport) : Prop :=
  ∃ id, toPython m.task = .ok id ∧ (m.kind.tolerant = true ∨ (db.tasks.get id).isSome = true) ∧
    ∀ x, db.tasks.get id = some x → x.isDone = false →
      ∀ error, m.kind.error? = some error → VarChar.Takes 30000 error

variable {S server toPython} {m : WireReport} {w : World} {id : TaskId}

/-- A refused report raises, unless the task is done already. -/
theorem answers_refuseReport {kind : ReportKind String} (hacked : kind.isAcked = true)
    (hrefused : kind.stored? = none) :
    wp (exec S) anyStep (refuseReport server id kind)
      (fun a _ => a = .ok () ↔ ∃ x, w.db.tasks.get id = some x ∧ x.isDone = true) w := by
  have hrefuse : wp (exec S) anyStep (PersistBackend.onTerminal server id (.fail .dataError))
      (fun a _ => a = .ok () ↔ ∃ x, w.db.tasks.get id = some x ∧ x.isDone = true) w := by
    refine PersistBackend.answers_onTerminal (fun hx => ?_) (fun x hx hd => ?_)
      fun x w' _ hx hd => ?_
    · simp [hx]
    · simp [hx, hd]
    · show Except.error _ = _ ↔ _
      simp [hx, hd]
  obtain ⟨error, rfl | rfl⟩ := refused_of_stored?_eq_none hacked hrefused
  · exact hrefuse
  · exact hrefuse

theorem answers_onAgentReport (hacked : m.kind.isAcked = true) :
    wp (exec S) anyStep (onAgentReport S server toPython m)
      (fun a _ => a = .ok () ↔ Answerable toPython w.db m) w := by
  have hfits := stored?_isSome_iff hacked
  cases hid : toPython m.task with
  | error e =>
    rw [onAgentReport_error hid]
    show Except.error e = _ ↔ _
    simp [Answerable, hid]
  | ok id =>
    have hanswerable : Answerable toPython w.db m ↔
        (m.kind.tolerant = true ∨ (w.db.tasks.get id).isSome = true) ∧
          ∀ x, w.db.tasks.get id = some x → x.isDone = false → m.kind.stored?.isSome = true := by
      simp only [Answerable, hid, Except.ok.injEq, exists_eq_left', hfits]
    rw [hanswerable]
    cases hkind : m.kind.stored? with
    | some kind =>
      obtain ⟨hacked', htolerant⟩ := tolerant_stored? hkind
      have hreport : wp (exec S) anyStep (PersistBackend.onReport S server ⟨m.id, m.seq, id, kind⟩)
          (fun a _ => a = PersistBackend.reportAnswer w.db ⟨m.id, m.seq, id, kind⟩) w :=
        PersistBackend.answers_onReport (hacked'.trans hacked)
      rw [onAgentReport_stored hid hkind]
      refine wp_bind.mpr (wp_mono ?_ hreport)
      rintro _ w' rfl
      unfold PersistBackend.reportAnswer
      rw [← htolerant]
      cases hanswer : kind.tolerant || (w.db.tasks.get id).isSome with
      | true =>
        show Except.ok _ = _ ↔ _
        simpa using hanswer
      | false =>
        show Except.error _ = _ ↔ _
        simp_all
    | none =>
      rw [onAgentReport_refused hid hkind]
      refine wp_mono ?_ (answers_refuseReport hacked hkind)
      rintro a w' ha
      refine ha.trans ?_
      obtain ⟨error, hk⟩ := refused_of_stored?_eq_none hacked hkind
      have hstrict : m.kind.tolerant = false := by
        rcases hk with hk | hk
        · rw [hk]; rfl
        · rw [hk]; rfl
      cases hx : w.db.tasks.get id with
      | none => simp [hstrict]
      | some x => cases hd : x.isDone <;> simp [hd]

variable (S server toPython) (str : Error → String) (agent : AgentId) (m)

/-- **Retained reports.** A report that asks for an acknowledgement gets it, and nothing is raised,
exactly where it is answerable. -/
theorem retained_acked_iff (hacked : m.kind.isAcked = true) (i : Nat → Input) (w : World) :
    ((MessageRouter.routeFromAgentMessage str (persistBackend S server toPython) agent
      (.report m)).run (exec S) i w).result = .ok (some (.eventAck m.id m.task m.seq)) ↔
      Answerable toPython w.db m := by
  suffices h : wp (exec S) anyStep
      (MessageRouter.routeFromAgentMessage str (persistBackend S server toPython) agent (.report m))
      (fun a _ => a = .ok (some (.eventAck m.id m.task m.seq)) ↔ Answerable toPython w.db m) w from
    wp_run h meets_any
  have hack : m.ack? = some (.eventAck m.id m.task m.seq) := by rw [WireReport.ack?, if_pos hacked]
  refine wp_bind.mpr (wp_mono ?_ (answers_onAgentReport hacked))
  rintro (e | _) w' h
  · refine Iff.trans ?_ h
    simp
  · refine Iff.trans ?_ h
    show Except.ok m.ack? = _ ↔ _
    simp [hack]

/-- An agent confirms the interrupt of a task that was deleted. -/
theorem retained_acked_interrupted :
    ((MessageRouter.routeFromAgentMessage (fun _ => "") (persistBackend {} 0 fun _ => .ok 7) 1
      (.report ⟨1, none, "7", .interrupted⟩)).run (exec {}) (fun _ => {}) {}).result =
        .ok (some (.eventAck 1 "7" none)) :=
  (retained_acked_iff {} 0 (fun _ => .ok 7) ⟨1, none, "7", .interrupted⟩ (fun _ => "") 1 rfl
    (fun _ => {}) {}).mpr ⟨7, rfl, .inl rfl, by intro x hx; cases hx⟩

/-- An agent reports the completion of a task that was deleted. -/
theorem completed_unanswered :
    ((MessageRouter.routeFromAgentMessage (fun _ => "") (persistBackend {} 0 fun _ => .ok 7) 1
      (.report ⟨1, none, "7", .completed⟩)).run (exec {}) (fun _ => {}) {}).result =
        .error (.doesNotExist "Task") := rfl

end ModelPersistBackend

end Rekuest
