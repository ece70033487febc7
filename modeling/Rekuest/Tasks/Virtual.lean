import Rekuest.Tasks.Assign

/-!
# Rekuest.Tasks.Virtual

Virtual wrappers and the messages that hand out work, handlers one at a time.

* `NoneVirtual`: no Assign that was ever pushed or posted names a virtual wrapper, and no Init
  that was ever sent lists one.
* `SparesVirtual`: no virtual wrapper is re-queued, and no session survives beside one in flight.
* `wrappers_virtual`: every run of such calls names no virtual wrapper.
  `wrapper_redispatched`: an idempotent wrapper is re-queued and its Assign is pushed.
-/

namespace Rekuest
namespace Virtual

open Interleave Interleave.Prog

variable {S : Settings} {ok : Input → Stmt → World → Prop} {w w' : World} {t : TaskId}

/-- The claim on a world. -/
structure NoneVirtual (w : World) : Prop where
  pushed : ∀ agent m, (agent, ToAgentMessage.assign m) ∈ w.pushed → w.db.Runs m.task
  posted : ∀ agent m, (agent, ToAgentMessage.assign m) ∈ w.posted → w.db.Runs m.task
  listed : ∀ connection agent inquiries,
    (connection, ToAgentMessage.init agent inquiries) ∈ w.sent → ∀ t ∈ inquiries, w.db.Runs t

theorem runs_evolves {db db' : Database} (h : db.Runs t) (hev : db.Evolves db') : db'.Runs t := by
  obtain ⟨task, hg, hv⟩ := h
  obtain ⟨task', hg', he⟩ := hev.tasks hg
  refine ⟨task', hg', ?_⟩
  rintro ⟨⟨i, impl, hi, himpl, hho⟩, hr⟩
  rw [he.implementation_eq] at hi
  rw [hev.implementations] at himpl
  exact hv ⟨⟨i, impl, hi, himpl, hho⟩, he.root_eq ▸ hr⟩

/-- The statement hands out no work. -/
def NoWork : Stmt → Prop
  | .deliver c => c.message.quiet = true
  | _ => True

theorem noWork_of_quiet {c : Stmt} (h : c.Quiet) : NoWork c := by
  cases c with
  | deliver c => exact h
  | _ => trivial

/-- The later world has handed out no more work. -/
structure SameWork (w w' : World) : Prop where
  evolves : w.db.Evolves w'.db
  pushed : ∀ agent m, (agent, ToAgentMessage.assign m) ∈ w'.pushed →
    (agent, ToAgentMessage.assign m) ∈ w.pushed
  posted : ∀ agent m, (agent, ToAgentMessage.assign m) ∈ w'.posted →
    (agent, ToAgentMessage.assign m) ∈ w.posted
  sent : ∀ connection agent inquiries, (connection, ToAgentMessage.init agent inquiries) ∈ w'.sent →
    (connection, ToAgentMessage.init agent inquiries) ∈ w.sent

theorem NoneVirtual.sameWork (h : NoneVirtual w) (hs : SameWork w w') : NoneVirtual w' where
  pushed agent m hm := runs_evolves (h.pushed agent m (hs.pushed agent m hm)) hs.evolves
  posted agent m hm := runs_evolves (h.posted agent m (hs.posted agent m hm)) hs.evolves
  listed connection agent inquiries hm t ht :=
    runs_evolves (h.listed connection agent inquiries (hs.sent connection agent inquiries hm) t ht)
      hs.evolves

theorem sameWork_of_eq (hev : w.db.Evolves w'.db) (hpushed : w'.pushed = w.pushed)
    (hposted : w'.posted = w.posted) (hsent : w'.sent = w.sent) : SameWork w w' where
  evolves := hev
  pushed _ _ h := hpushed ▸ h
  posted _ _ h := hposted ▸ h
  sent _ _ _ h := hsent ▸ h

theorem sameWork_exec {i : Input} {c : Stmt} (hc : NoWork c) : SameWork w (exec S i c w).2 := by
  have hquiet : ∀ {α : Type} {x y : α} {l : List (α × ToAgentMessage)} {m m' : ToAgentMessage},
      m'.quiet = true → m.quiet = false → (x, m) ∈ l ++ [(y, m')] → (x, m) ∈ l := by
    intro α x y l m m' hm' hm h
    rcases List.mem_append.mp h with h | h
    · exact h
    · cases List.mem_singleton.mp h
      rw [hm] at hm'
      cases hm'
  cases c with
  | deliver c =>
    cases c with
    | push agent m => exact ⟨exec_evolves, fun _ _ h => hquiet hc rfl h, fun _ _ h => h,
        fun _ _ _ h => h⟩
    | post agent m => exact ⟨exec_evolves, fun _ _ h => h, fun _ _ h => hquiet hc rfl h,
        fun _ _ _ h => h⟩
    | send connection m => exact ⟨exec_evolves, fun _ _ h => h, fun _ _ h => h,
        fun _ _ _ h => hquiet hc rfl h⟩
  | read q => exact sameWork_of_eq exec_evolves rfl rfl rfl
  | lease c => exact sameWork_of_eq exec_evolves rfl rfl rfl
  | agent c => exact sameWork_of_eq exec_evolves rfl rfl rfl
  | task c => exact sameWork_of_eq exec_evolves rfl rfl rfl
  | state c => exact sameWork_of_eq exec_evolves rfl rfl rfl
  | timer c => cases c <;> exact sameWork_of_eq exec_evolves rfl rfl rfl
  | getOrCreateCaller identity =>
    refine sameWork_of_eq exec_evolves ?_ ?_ ?_ <;>
    · simp only [exec]
      split <;> rfl

theorem runs_last {agent agent' : AgentId} {m m' : Assign} {l : List (AgentId × ToAgentMessage)}
    (hl : ∀ agent m, (agent, ToAgentMessage.assign m) ∈ l → w.db.Runs m.task)
    (hruns : w.db.Runs m.task) (hm : (agent', ToAgentMessage.assign m') ∈ l ++ [(agent, .assign m)]) :
    w.db.Runs m'.task := by
  rcases List.mem_append.mp hm with hm | hm
  · exact hl agent' m' hm
  · cases List.mem_singleton.mp hm
    exact hruns

theorem noneVirtual_push {agent : AgentId} {m : Assign} (h : NoneVirtual w)
    (hruns : w.db.Runs m.task) :
    NoneVirtual { w with pushed := w.pushed ++ [(agent, .assign m)] } :=
  ⟨fun _ _ hm => runs_last h.pushed hruns hm, h.posted, h.listed⟩

theorem noneVirtual_post {agent : AgentId} {m : Assign} (h : NoneVirtual w)
    (hruns : w.db.Runs m.task) :
    NoneVirtual { w with posted := w.posted ++ [(agent, .assign m)] } :=
  ⟨h.pushed, fun _ _ hm => runs_last h.posted hruns hm, h.listed⟩

/-- An Assign for a task that is not virtual. -/
theorem noneVirtual_delivered {agent : AgentId} {m : Assign} (h : NoneVirtual w)
    (hruns : w.db.Runs m.task) : NoneVirtual (w.delivered agent (.assign m)) := by
  unfold World.delivered
  split
  · exact h
  split
  · exact noneVirtual_push h hruns
  · split
    · exact noneVirtual_post h hruns
    · exact h

theorem noneVirtual_withTask {row : Task} (h : NoneVirtual w) : NoneVirtual (w.withTask row) :=
  h.sameWork (sameWork_of_eq
    ⟨rfl, rfl, fun hg => ⟨_, Table.get_insert_of_get hg, .refl⟩⟩ rfl rfl rfl)

/-- Assigns and control requests. -/
theorem noneVirtual_takesWork : TakesWork S NoneVirtual where
  quiet _ _ _ hc h := h.sameWork (sameWork_exec (noWork_of_quiet hc))
  root _ _ h _ _ _ := noneVirtual_withTask h
  pair _ _ _ h _ _ _ _ _ _ _ _ := noneVirtual_withTask (noneVirtual_withTask h)
  push _ _ _ h hruns := noneVirtual_delivered h hruns

/-! ## Connections -/

def isVirtual (db : Database) (task : Task) : Bool :=
  (task.implementation.bind db.implementations.get).any (·.higherOrderFor.isSome)
    && task.root.isNone

theorem isVirtual_iff {db : Database} {task : Task} :
    isVirtual db task = true ↔ db.Virtual task := by
  unfold isVirtual Database.Virtual Database.IsWrapper
  rw [Bool.and_eq_true_iff, Option.any_eq_true, Option.isNone_iff_eq_none]
  refine and_congr_left fun _ => ?_
  simp only [Option.bind_eq_some_iff]
  constructor
  · rintro ⟨impl, ⟨i, hi, himpl⟩, hho⟩
    exact ⟨i, impl, hi, himpl, hho⟩
  · rintro ⟨i, impl, hi, himpl, hho⟩
    exact ⟨impl, ⟨i, hi, himpl⟩, hho⟩

/-- The claim of QUEUED does not land on a virtual wrapper, and the claim of a lease by a session
that is not fresh finds none in flight. -/
def SparesVirtual (S : Settings) (i : Input) (c : Stmt) (w : World) : Prop :=
  (match c with
  | .task (.claimTransition x .queued _ skip) =>
    (w.db.tasks.get x).all fun row =>
      row.isDone || skip == some row.latestEventKind || !isVirtual w.db row
  | .lease (.claim agent connection session force) =>
    (w.db.agents.get agent).all fun row =>
      let answer := (row.toLeaseColumns.claim S i connection session force).1
      !answer.claimed || PersistBackend.isFreshSession answer.priorSession session ||
        (w.db.tasks.select fun _ task => task.agent = agent && !task.isDone).all
          fun task => !isVirtual w.db task.2
  | _ => true) = true

instance (S : Settings) (i : Input) (c : Stmt) (w : World) : Decidable (SparesVirtual S i c w) :=
  inferInstanceAs (Decidable (_ = true))

theorem runs_of_get {db : Database} {task : Task} (hg : db.tasks.get t = some task)
    (hv : isVirtual db task = false) : db.Runs t :=
  ⟨task, hg, fun h => by rw [isVirtual_iff.mpr h] at hv; cases hv⟩

/-- A program that hands out no work. -/
theorem keeps_noWork {α : Type} {p : Handler α} (hp : Prog.Issues (L := Statements) NoWork p) :
    Keeps (exec S) ok NoneVirtual p :=
  hp.keeps fun _ _ _ hc _ h => h.sameWork (sameWork_exec hc)

theorem keeps_requeueTask {id : TaskId} {agent : AgentId} {assign : Assign}
    (hassign : assign.task = id) :
    Keeps (exec S) (SparesVirtual S) NoneVirtual
      (PersistBackend.requeueTask id agent assign) := by
  intro w h
  refine wp_bind.mpr (PersistBackend.wp_claimAny (fun _ => h) (fun _ _ _ => h)
    fun i task hi hg hd hs => ?_)
  have hreal : isVirtual w.db task = false := by
    have hok := (Option.all_eq_true _ _).mp hi task hg
    simp only [hd, Bool.false_or, Bool.or_eq_true, beq_iff_eq, Bool.not_eq_true'] at hok
    exact hok.resolve_left hs
  generalize hw' : ({ w with db := w.db.saveTask id _ i.now } : World) = w'
  have hI : NoneVirtual w' ∧ w'.db.Runs id :=
    ⟨h.sameWork (hw' ▸ sameWork_of_eq Database.evolves_saveTask rfl rfl rfl),
      runs_evolves (runs_of_get hg hreal) (hw' ▸ Database.evolves_saveTask)⟩
  have hissue : ∀ {c : Stmt}, NoWork c → Keeps (ε := Error) (L := Statements) (exec S)
      (SparesVirtual S) (fun w => NoneVirtual w ∧ w.db.Runs id)
        (Prog.issue (L := Statements) c) := fun hc => Keeps.issue fun _ _ _ h =>
    ⟨h.1.sameWork (sameWork_exec hc), runs_evolves h.2 exec_evolves⟩
  have hrest : Keeps (exec S) (SparesVirtual S) (fun w => NoneVirtual w ∧ w.db.Runs id)
      ((createEvent { task := id, kind := .queued
                      message := some PersistBackend.queuedMessage }).bind fun _ =>
        broadcast agent (.assign assign)) := by
    refine Keeps.compositional.bind (createEvent_built Keeps.compositional (hissue trivial))
      fun _ => broadcast_built Keeps.compositional (hissue trivial) ?_ ?_
    · exact Keeps.issue fun _ w _ h => ⟨noneVirtual_push h.1 (hassign ▸ h.2), h.2⟩
    · exact Keeps.issue fun _ w _ h => ⟨noneVirtual_post h.1 (hassign ▸ h.2), h.2⟩
  exact wp_mono (fun _ _ h => h.1) (hrest w' hI)

theorem keeps_cascade (server : ServerId) (agent : AgentId) :
    Keeps (exec S) (SparesVirtual S) NoneVirtual (PersistBackend.orphanCascade server agent) := by
  have hclaim : ∀ {id : TaskId} {kind : TaskEventKind} {markDone : Bool}
      {skip : Option TaskEventKind} {event : TaskEvent}, Prog.Issues (L := Statements) NoWork
        ((PersistBackend.claimTaskTransitionSync id kind markDone skip).bind fun won =>
          if won = true then createEvent event else .ret ()) := fun {_ _ _ _ _} =>
    PersistBackend.claimAndRecord_issues trivial trivial
      (createEvent_built Issues.compositional (.issue trivial))
  refine PersistBackend.orphanCascade_built Keeps.compositional
    (keeps_noWork (.issue trivial)) fun row => PersistBackend.failAndCascade_built
      Keeps.compositional (keeps_noWork (.issue trivial)) (keeps_noWork (.issue trivial))
      (fun ctx => keeps_noWork (.issue trivial)) (keeps_noWork hclaim) (keeps_noWork hclaim)
      fun assign hassign => keeps_requeueTask hassign

/-- The triggers of reconciliation. -/
theorem keeps_reconciles :
    PersistBackend.Reconciles fun _ p => Keeps (exec S) (SparesVirtual S) NoneVirtual p where
  toCompositional := Keeps.compositional
  read _ := keeps_noWork (.issue trivial)
  timer _ := keeps_noWork (.issue trivial)
  revoke _ := keeps_noWork (.issue trivial)
  cascade := keeps_cascade

/-- A connection lists what is in flight only where none of it is virtual. -/
theorem wp_onAgentConnected {server : ServerId} {agent : AgentId}
    {connection : Option ConnectionId} {session : Option SessionId} {force : Bool}
    (h : NoneVirtual w) :
    wp (exec S) (SparesVirtual S)
      (PersistBackend.onAgentConnected server agent connection session force)
      (fun result w' => NoneVirtual w' ∧
        ∀ claim, result = .ok claim → ∀ t ∈ claim.tasks, w'.db.Runs t) w := by
  rw [PersistBackend.onAgentConnected_eq]
  refine wp_bind.mpr (wp_bind.mpr fun i hi => ?_)
  have hkept := h.sameWork (sameWork_exec (S := S) (i := i)
    (c := .lease (.claim agent connection session force)) trivial)
  have htasks : (exec S i (.lease (.claim agent connection session force)) w).2.db.tasks =
      w.db.tasks := (exec_not_task fun s hs => by cases hs).1
  have hev : w.db.Evolves (exec S i (.lease (.claim agent connection session force)) w).2.db :=
    exec_evolves
  have hans : (exec S i (.lease (.claim agent connection session force)) w).1 =
      (w.db.agents.get agent).map fun row =>
        (row.toLeaseColumns.claim S i connection session force).1 := by
    simp only [exec, LeaseStmt.exec, LeaseStmt.target]
    cases w.db.agents.get agent <;> rfl
  generalize exec S i (.lease (.claim agent connection session force)) w = answer at *
  obtain ⟨answer, w'⟩ := answer
  dsimp only at hkept htasks hev hans ⊢
  cases answer with
  | none => exact ⟨hkept, fun _ hc => by cases hc⟩
  | some answer =>
    obtain ⟨row, hrow, rfl⟩ := Option.map_eq_some_iff.mp hans.symm
    have hok := (Option.all_eq_true _ _).mp hi row hrow
    generalize (row.toLeaseColumns.claim S i connection session force).1 = answer at hok ⊢
    show wp _ _ (if answer.claimed = true then _ else _) _ _
    split
    swap
    · exact ⟨hkept, fun claim hc t ht => by cases hc; cases ht⟩
    rename_i hclaimed
    refine wp_bind.mpr (wp_cancelTimer ?_)
    have htimer : NoneVirtual (w'.setTimer server .executorGrace agent none) :=
      ⟨hkept.pushed, hkept.posted, hkept.listed⟩
    show wp _ _ (PersistBackend.afterClaim server agent session answer) _ _
    unfold PersistBackend.afterClaim
    split
    · refine wp_bind.mpr (wp_mono ?_ (keeps_cascade server agent _ htimer))
      rintro (e | a) w'' h''
      · exact ⟨h'', fun _ hc => by cases hc⟩
      · exact ⟨h'', fun claim hc t ht => by cases hc; cases ht⟩
    · rename_i hfresh
      refine wp_bind.mpr (wp_ask fun j => ⟨htimer, fun claim hc t ht => ?_⟩)
      cases hc
      obtain ⟨inFlight, hmem, rfl⟩ := List.mem_map.mp ht
      obtain ⟨hg, ha, hd, _⟩ := mem_inFlight.mp hmem
      have hg' : w.db.tasks.get inFlight.id = some inFlight.task := by rw [← htasks]; exact hg
      refine runs_evolves (runs_of_get hg' ?_) hev
      simp only [hclaimed, Bool.not_true, Bool.false_or, hfresh, List.all_eq_true] at hok
      simpa using hok (inFlight.id, inFlight.task)
        (Table.mem_select.mpr ⟨hg', by simp [ha, hd]⟩)

theorem keeps_onRegister {server : ServerId} {agent : AgentId} {connection : ConnectionId}
    {session : Option SessionId} {force : Bool} :
    Keeps (exec S) (SparesVirtual S) NoneVirtual
      (PersistBackend.onRegister server agent connection session force) := by
  refine Keeps.compositional.bind (keeps_noWork (.issue trivial)) fun _ =>
    Keeps.compositional.bind (orDoesNotExist_built Keeps.compositional) fun row => ?_
  split
  · exact Keeps.compositional.ret none
  refine Keeps.compositional.bind (keeps_noWork (.issue trivial)) fun _ w h => ?_
  refine wp_bind.mpr (wp_mono ?_ (wp_onAgentConnected h))
  rintro (e | claim) w' ⟨h', htasks⟩
  · exact h'
  show wp _ _ (if _ then _ else _) _ _
  split
  · have hrefuse : Prog.Issues (L := Statements) NoWork ((send connection (.protocolError
        "Another connection is already registered for this agent. Reconnect with force to take over.")).bind
          fun _ => (.ret none : Handler (Option PersistBackend.LeaseClaim))) := ⟨rfl, fun _ => trivial⟩
    exact keeps_noWork hrefuse w' h'
  · intro i _
    refine ⟨h'.pushed, h'.posted, fun c a inquiries hm t ht => ?_⟩
    rcases List.mem_append.mp hm with hm | hm
    · exact h'.listed c a inquiries hm t ht
    · cases List.mem_singleton.mp hm
      exact htasks claim rfl t ht

theorem keeps_connection {c : ConnectionCall} :
    Keeps (exec S) (SparesVirtual S) NoneVirtual (c.code S) :=
  keeps_reconciles.sweeps.connectionCall (fun _ _ _ _ _ _ => keeps_onRegister)
    (fun _ _ _ => keeps_noWork (.issue trivial))
    fun _ _ _ _ => keeps_reconciles.sweeps.onAgentDisconnected (keeps_noWork (.issue trivial))

/-! ## Runs -/

/-- The handlers of the connections of a run spare the virtual wrappers. -/
def SparingRun (S : Settings) : World → List (Call × (Nat → Input)) → Prop
  | _, [] => True
  | w, (.connection c, i) :: calls => Meets (exec S) (SparesVirtual S) (c.code S) i w ∧
      SparingRun S (runAlone S (c.code S) i w) calls
  | w, (c, i) :: calls => SparingRun S (runAlone S (c.code S) i w) calls

theorem noneVirtual_call {c : Call} {i : Nat → Input} (h : NoneVirtual w)
    (hs : ∀ d, c = .connection d → Meets (exec S) (SparesVirtual S) (d.code S) i w) :
    NoneVirtual (runAlone S (c.code S) i w) := by
  have hissues : ∀ {p : Handler Unit}, Prog.Issues (L := Statements) NoWork p →
      NoneVirtual (runAlone S p i w) := fun hp => by
    have hkeeps : Keeps (exec S) anyStep NoneVirtual _ := keeps_noWork hp
    exact hkeeps.run h meets_any
  cases c with
  | connection c => exact keeps_connection.run h (hs c rfl)
  | agent c => exact hissues (c.issues.mono fun _ => noWork_of_quiet)
  | report c =>
    refine hissues ((c.issues (S := S)).mono fun c hc => ?_)
    cases c with
    | deliver c => exact hc.elim
    | _ => trivial
  | postman c =>
    have hkeeps : Keeps (exec S) anyStep NoneVirtual (c.code S) := noneVirtual_takesWork.postmanCall
    exact hkeeps.run h meets_any

theorem noneVirtual_run {calls : List (Call × (Nat → Input))} (h : NoneVirtual w)
    (hs : SparingRun S w calls) : NoneVirtual (runAll S (Call.code S) w calls) := by
  induction calls generalizing w with
  | nil => exact h
  | cons call calls ih =>
    obtain ⟨c, i⟩ := call
    cases c with
    | connection c =>
      exact ih (noneVirtual_call (c := .connection c) h fun d hd => by cases hd; exact hs.1) hs.2
    | agent c => exact ih (noneVirtual_call (c := .agent c) h nofun) hs
    | report c => exact ih (noneVirtual_call (c := .report c) h nofun) hs
    | postman c => exact ih (noneVirtual_call (c := .postman c) h nofun) hs

/-- Nothing was handed out yet. -/
structure Silent (w : World) : Prop where
  pushed : w.pushed = []
  posted : w.posted = []
  sent : w.sent = []

theorem sparingRun_take {before after : List (Call × (Nat → Input))}
    (h : SparingRun S w (before ++ after)) : SparingRun S w before := by
  induction before generalizing w with
  | nil => exact trivial
  | cons call before ih =>
    obtain ⟨c, i⟩ := call
    cases c with
    | connection c => exact ⟨h.1, ih h.2⟩
    | agent c => exact ih h
    | report c => exact ih h
    | postman c => exact ih h

/-- **A wrapper is virtual** in every run whose handlers spare the virtual wrappers. -/
theorem wrappers_virtual (S : Settings) (w : World) (calls : List (Call × (Nat → Input)))
    (hw : Silent w) (hs : SparingRun S w calls) :
    ∀ before after, calls = before ++ after → NoneVirtual (runAll S (Call.code S) w before) := by
  rintro before after rfl
  refine noneVirtual_run ⟨?_, ?_, ?_⟩ (sparingRun_take hs)
  · intro agent m hm; rw [hw.pushed] at hm; cases hm
  · intro agent m hm; rw [hw.posted] at hm; cases hm
  · intro connection agent inquiries hm; rw [hw.sent] at hm; cases hm

section Redispatched

/-- Agent 1, live at time 0, with implementation 1 and implementation 2 wrapped around it, both of
one action. -/
def wrapperWorld (idempotent : Bool) : World :=
  let user : User := ⟨1, "user"⟩
  let client : Client := ⟨1, "client"⟩
  let organization : Organization := ⟨1, "org"⟩
  { db := {
      agents := Table.empty.insert {
        name := "agent", app := "app", release := "1", hash := "hash"
        connected := true, lastSeen := some 0
        user := user, client := client, organization := organization }
      actions := Table.empty.insert {
        key := "act", hash := "hash", organization := organization, idempotent := idempotent }
      implementations := (Table.empty.insert
        { interface := "act", action := 1, agent := 1 }).insert
        { interface := "wrap", action := 1, agent := 1, higherOrderFor := some 1 } } }

/-- An assign to the higher-order implementation while the agent is live, and a grace timer that
fires when it no longer is. -/
def wrapAndExpire : List (Call × (Nat → Input)) :=
  let ctx : CallerContext :=
    { user := ⟨1, "user"⟩, client := some ⟨1, "client"⟩, organization := some ⟨1, "org"⟩ }
  [(.postman (.assign ctx { implementation := some 2 }), fun _ => {}),
    (.connection (.graceExpired 0 1), fun _ => { now := 100 })]

theorem wrappers_virtual_expired :
    NoneVirtual (runAll {} (Call.code {}) (wrapperWorld false) wrapAndExpire) :=
  wrappers_virtual {} (wrapperWorld false) wrapAndExpire ⟨rfl, rfl, rfl⟩
    ⟨by decide +kernel, trivial⟩ wrapAndExpire [] (List.append_nil _).symm

/-- The wrapper of an idempotent action is re-queued like any task of its agent. -/
theorem wrapper_redispatched :
    ¬ NoneVirtual (runAll {} (Call.code {}) (wrapperWorld true) wrapAndExpire) := by
  intro h
  have hpushed : ∃ m ∈ (runAll {} (Call.code {}) (wrapperWorld true) wrapAndExpire).pushed,
      m.2.assigned? = some 1 := by decide +kernel
  have hvirtual : ((runAll {} (Call.code {}) (wrapperWorld true) wrapAndExpire).db.tasks.get 1).all
      (isVirtual (runAll {} (Call.code {}) (wrapperWorld true) wrapAndExpire).db) = true := by
    decide +kernel
  obtain ⟨⟨agent, m⟩, hm, hwrapper⟩ := hpushed
  cases m with
  | assign m =>
    obtain ⟨task, hg, hreal⟩ := h.pushed agent m hm
    rw [Option.some.inj hwrapper] at hg
    exact hreal (isVirtual_iff.mp ((Option.all_eq_true _ _).mp hvirtual task hg))
  | _ => cases hwrapper

end Redispatched

end Virtual
end Rekuest
