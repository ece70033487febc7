import Rekuest.Tasks.Reports

/-!
# Rekuest.Tasks.Cascade

What the orphan cascade makes of the world when it runs alone.

* `Database.note`: the event and the save of a task that goes on. `World.delivered`: a message
  on its way to an agent.
* `Round`: what the cascade does with one row: it strikes the task down, re-queues it, reports
  the disconnect, or leaves it as it is. `wp_failAndCascade`: it does one of these.
* `Current`: the rows a cascade still has before it are as the query loaded them.
* `wp_orphanCascade`: the rule for a whole cascade, from what holds round by round.
-/

namespace Rekuest

open Interleave Interleave.Prog

/-! ## Writes -/

namespace Database

variable (db : Database)

/-- The event and the save that change the kind of a task. -/
def note (id : TaskId) (kind : TaskEventKind) (message : Option EventText) (now : Time) : Database :=
  (db.record { task := id, kind := kind, message := message }).saveTask id
    { latestEventKind := some kind } now

/-- `_build_redispatch_assign_sync` finds what it needs, and the token is not refused. -/
def redispatchable (S : Settings) (id : TaskId) : Bool :=
  match (Query.redispatchSource id).eval S default db with
  | some ⟨_, some _, some _, some caller⟩ =>
    ((Query.mintLoaded id ⟨caller.user, some caller.client, some caller.organization, []⟩).eval S
      default db).isOk
  | _ => false

/-- The task runs on an implementation with a physical effect. -/
def isPhysical (task : Task) : Bool :=
  ((task.implementation.bind db.implementations.get).map (·.effect)).getD .none = .physical

end Database

/-- The world with a message for an agent on its way: the effect of `broadcast`. -/
def World.delivered (w : World) (agent : AgentId) (m : ToAgentMessage) : World :=
  match w.db.agents.get agent with
  | none => w
  | some row => match row.kind with
    | .websocket => { w with pushed := w.pushed ++ [(agent, m)] }
    | .webhook =>
      if row.hookUrl.any (· != "") then { w with posted := w.posted ++ [(agent, m)] } else w

variable {S : Settings} {ok : Input → Stmt → World → Prop} {w w' : World} {db : Database}
  {t id : TaskId} {kind : TaskEventKind} {message : Option EventText} {now : Time}

namespace Database

theorem get_finish_self {task : Task} (hg : db.tasks.get id = some task) :
    (db.finish id kind message now).tasks.get id =
      some (TaskUpdate.apply { latestEventKind := some kind, done := true } now task) :=
  get_saveTask_self.trans (by rw [record_tasks, hg]; rfl)

end Database

@[simp] theorem World.delivered_db {agent : AgentId} {m : ToAgentMessage} :
    (w.delivered agent m).db = w.db := by
  unfold World.delivered
  split
  · rfl
  split
  · rfl
  · split <;> rfl

theorem claimTransition_exec_lost {i : Input} {task : Task} {markDone : Bool}
    {skip : Option TaskEventKind} (hg : db.tasks.get id = some task)
    (h : task.isDone = true ∨ skip = some task.latestEventKind) :
    (TaskStmt.claimTransition id kind markDone skip).exec i db = (some false, db) := by
  simp only [TaskStmt.exec, hg, claimTransition_lost h]
  rw [Table.modify_eq_self fun row hrow => Option.some.inj (hg.symm.trans hrow)]

theorem claimTransition_exec_won {i : Input} {task : Task} {markDone : Bool}
    {skip : Option TaskEventKind} (hg : db.tasks.get id = some task)
    (hd : task.isDone = false) (hs : skip ≠ some task.latestEventKind) :
    (TaskStmt.claimTransition id kind markDone skip).exec i db =
      (some true, db.saveTask id { latestEventKind := some kind, done := markDone } i.now) := by
  simp only [TaskStmt.exec, hg, claimTransition_won hd hs]
  rw [Table.modify_const hg]
  rfl

theorem wp_broadcast {agent : AgentId} {m : ToAgentMessage} {Q : Except Error Unit → World → Prop}
    (hthere : (w.db.agents.get agent).isSome = true) (h : Q (.ok ()) (w.delivered agent m)) :
    wp (exec S) ok (broadcast agent m) Q w := by
  obtain ⟨row, hrow⟩ := Option.isSome_iff_exists.mp hthere
  refine wp_bind.mpr (wp_ask fun i => ?_)
  show wp _ _ ((orDoesNotExist "Agent" (w.db.agents.get agent)).bind _) _ _
  rw [hrow]
  unfold World.delivered at h
  rw [hrow] at h
  dsimp only [orDoesNotExist, ret_bind] at h ⊢
  cases hk : row.kind with
  | websocket =>
    rw [hk] at h
    exact fun _ _ => h
  | webhook =>
    rw [hk] at h
    dsimp only at h ⊢
    split
    · rename_i hurl
      rw [if_pos hurl] at h
      exact fun _ _ => h
    · rename_i hurl
      rw [if_neg hurl] at h
      exact h

namespace PersistBackend

/-- A claim of a transition, on any database. -/
theorem wp_claimAny {markDone : Bool} {skip : Option TaskEventKind}
    {Q : Except Error Bool → World → Prop}
    (hmissing : w.db.tasks.get id = none → Q (.error (.doesNotExist "Task")) w)
    (hlost : ∀ task, w.db.tasks.get id = some task →
      task.isDone = true ∨ skip = some task.latestEventKind → Q (.ok false) w)
    (hwon : ∀ i task, ok i (.task (.claimTransition id kind markDone skip)) w →
      w.db.tasks.get id = some task → task.isDone = false → skip ≠ some task.latestEventKind →
      Q (.ok true) { w with
        db := w.db.saveTask id { latestEventKind := some kind, done := markDone } i.now }) :
    wp (exec S) ok (claimTaskTransitionSync id kind markDone skip) Q w := by
  intro i hi
  cases hg : w.db.tasks.get id with
  | none =>
    simp only [exec, TaskStmt.exec, hg]
    exact hmissing hg
  | some task =>
    simp only [exec]
    by_cases h : task.isDone = true ∨ skip = some task.latestEventKind
    · rw [claimTransition_exec_lost hg h]
      exact hlost task hg h
    · obtain ⟨hd, hs⟩ := not_or.mp h
      have hopen : task.isDone = false := by simpa using hd
      rw [claimTransition_exec_won hg hopen hs]
      exact hwon i task hi hg hopen hs

theorem wp_claimTaskTransitionSync {markDone : Bool} {skip : Option TaskEventKind} {task : Task}
    {Q : Except Error Bool → World → Prop} (hg : w.db.tasks.get id = some task)
    (hd : task.isDone = false)
    (hlost : skip = some task.latestEventKind → Q (.ok false) w)
    (hwon : ∀ i, ok i (.task (.claimTransition id kind markDone skip)) w →
      skip ≠ some task.latestEventKind → Q (.ok true) { w with
        db := w.db.saveTask id { latestEventKind := some kind, done := markDone } i.now }) :
    wp (exec S) ok (claimTaskTransitionSync id kind markDone skip) Q w := by
  refine wp_claimAny (fun hnone => ?_) (fun task' hg' h => ?_) fun i task' hi hg' hd' hs => ?_
  · rw [hnone] at hg
    cases hg
  · cases hg.symm.trans hg'
    refine hlost (h.resolve_left ?_)
    rw [hd]
    exact Bool.false_ne_true
  · cases hg.symm.trans hg'
    exact hwon i hi hs

/-- Whether a token is refused is no matter of the clock. -/
theorem mint_isOk {i j : Input} {ctx : CallerContext} :
    ((Query.mintLoaded id ctx).eval S i db).isOk =
      ((Query.mintLoaded id ctx).eval S j db).isOk := by
  simp only [Query.eval]
  cases db.tasks.get id with
  | none => rfl
  | some row =>
    dsimp only [Provenance.mintTokenForTask]
    split
    · split
      · split
        · rfl
        · split <;> rfl
      · rfl
    · rfl

theorem wp_buildRedispatchAssignSync {Q : Except Error (Option Assign) → World → Prop}
    (hthere : (w.db.tasks.get id).isSome = true)
    (hnone : w.db.redispatchable S id = false → Q (.ok none) w)
    (hsome : ∀ assign, assign.task = id → w.db.redispatchable S id = true →
      Q (.ok (some assign)) w) :
    wp (exec S) ok (buildRedispatchAssignSync id) Q w := by
  refine wp_bind.mpr (wp_ask fun i => ?_)
  have hsource : (Query.redispatchSource id).eval S i w.db =
      (Query.redispatchSource id).eval S default w.db := rfl
  rw [hsource]
  unfold Database.redispatchable at hnone hsome
  match hans : (Query.redispatchSource id).eval S default w.db with
  | none =>
    obtain ⟨task, hg⟩ := Option.isSome_iff_exists.mp hthere
    simp only [Query.eval, hg, Option.map_some] at hans
    cases hans
  | some ⟨task, none, action, caller⟩ =>
    rw [hans] at hnone
    exact hnone rfl
  | some ⟨task, some implementation, none, caller⟩ =>
    rw [hans] at hnone
    cases caller <;> exact hnone rfl
  | some ⟨task, some implementation, some action, none⟩ =>
    rw [hans] at hnone
    exact hnone rfl
  | some ⟨task, some (implId, impl), some action, some caller⟩ =>
    rw [hans] at hnone hsome
    show wp _ _ ((ask (.mintLoaded id ⟨caller.user, some caller.client, some caller.organization,
      []⟩)).bind _) _ _
    refine wp_bind.mpr (wp_ask fun j => ?_)
    have hok : ((Query.mintLoaded id ⟨caller.user, some caller.client, some caller.organization,
        []⟩).eval S default w.db).isOk = ((Query.mintLoaded id ⟨caller.user, some caller.client,
        some caller.organization, []⟩).eval S j w.db).isOk := mint_isOk
    dsimp only at hnone hsome
    rw [hok] at hnone hsome
    generalize (Query.mintLoaded id ⟨caller.user, some caller.client, some caller.organization,
      []⟩).eval S j w.db = token at hnone hsome ⊢
    cases token with
    | error e => exact hnone rfl
    | ok token => exact hsome _ rfl rfl

end PersistBackend

/-! ## Rounds -/

namespace InFlight

def physical (row : InFlight) : Bool :=
  (row.implementation.map (·.effect)).getD .none = .physical

/-- The row is one that the cascade tries to re-queue. -/
def retryable (row : InFlight) : Bool :=
  row.action.any (·.idempotent) && row.task.latestEventKind != .queued

end InFlight

/-- What a round of the cascade makes of the world, but for the timers. -/
inductive Round (S : Settings) (ok : Input → Stmt → World → Prop) (row : InFlight) (w : World) :
    World → Prop where
  | strike (i : Input) (now : Time) (hphys : row.physical = true)
    (hok : ok i (.task (.claimTransition row.id .critical true none)) w) :
    Round S ok row w { w with
      db := w.db.finish row.id .critical (some PersistBackend.criticalMessage) now }
  | requeue (i : Input) (now : Time) (assign : Assign) (hphys : row.physical = false)
    (hretry : row.retryable = true) (hre : w.db.redispatchable S row.id = true)
    (htask : assign.task = row.id)
    (hok : ok i (.task (.claimTransition row.id .queued false (some .queued))) w) :
    Round S ok row w (World.delivered { w with
      db := w.db.note row.id .queued (some PersistBackend.queuedMessage) now }
        row.task.agent (.assign assign))
  | disconnect (now : Time) (hphys : row.physical = false)
    (hno : row.retryable = false ∨ w.db.redispatchable S row.id = false)
    (hkind : row.task.latestEventKind ≠ .disconnected) :
    Round S ok row w { w with
      db := w.db.note row.id .disconnected (some PersistBackend.disconnectedMessage) now }
  | skip (hphys : row.physical = false)
    (hno : row.retryable = false ∨ w.db.redispatchable S row.id = false)
    (hkind : row.task.latestEventKind = .disconnected) : Round S ok row w w

namespace PersistBackend

variable {row : InFlight} {Q : Except Error Unit → World → Prop}

theorem wp_recordClaimed {event : TaskEvent} {u : TaskUpdate}
    (hthere : (w.db.tasks.get event.task).isSome = true)
    (h : Q (.ok ()) { w with db := (w.db.record event).saveTask id u now }) :
    wp (exec S) ok (createEvent event) Q { w with db := w.db.saveTask id u now } := by
  refine wp_createEvent ?_ h
  obtain ⟨task, hg⟩ := Option.isSome_iff_exists.mp hthere
  have hevolves : w.db.Evolves (w.db.saveTask id u now) := Database.evolves_saveTask
  obtain ⟨task', hg', _⟩ := hevolves.tasks hg
  rw [hg']
  rfl

theorem wp_disconnectTask {task : Task} (hg : w.db.tasks.get id = some task)
    (hd : task.isDone = false)
    (hskip : task.latestEventKind = .disconnected → Q (.ok ()) w)
    (hnote : ∀ now, task.latestEventKind ≠ .disconnected → Q (.ok ()) { w with
      db := w.db.note id .disconnected (some disconnectedMessage) now }) :
    wp (exec S) ok (disconnectTask id) Q w := by
  have hthere : (w.db.tasks.get id).isSome = true := by rw [hg]; rfl
  refine wp_bind.mpr (wp_claimTaskTransitionSync hg hd (fun hs => ?_) fun i _ hs => ?_)
  · exact hskip (Option.some.inj hs).symm
  · exact wp_recordClaimed hthere (hnote i.now fun h => hs (congrArg some h.symm))

theorem wp_failPhysicalTask {task : Task} (hg : w.db.tasks.get id = some task)
    (hd : task.isDone = false)
    (hfinish : ∀ i now, ok i (.task (.claimTransition id .critical true none)) w →
      Q (.ok ()) { w with db := w.db.finish id .critical (some criticalMessage) now }) :
    wp (exec S) ok (failPhysicalTask id) Q w := by
  have hthere : (w.db.tasks.get id).isSome = true := by rw [hg]; rfl
  refine wp_bind.mpr (wp_claimTaskTransitionSync hg hd nofun fun i hi _ => ?_)
  exact wp_recordClaimed hthere (hfinish i i.now hi)

theorem wp_requeueTask {task : Task} {agent : AgentId} {assign : Assign}
    (hg : w.db.tasks.get id = some task) (hd : task.isDone = false)
    (hkind : task.latestEventKind ≠ .queued) (hagent : (w.db.agents.get agent).isSome = true)
    (hnote : ∀ i now, ok i (.task (.claimTransition id .queued false (some .queued))) w →
      Q (.ok ()) (World.delivered { w with
        db := w.db.note id .queued (some queuedMessage) now } agent (.assign assign))) :
    wp (exec S) ok (requeueTask id agent assign) Q w := by
  have hthere : (w.db.tasks.get id).isSome = true := by rw [hg]; rfl
  refine wp_bind.mpr (wp_claimTaskTransitionSync hg hd (fun hs => ?_) fun i hi _ => ?_)
  · exact absurd (Option.some.inj hs).symm hkind
  · refine wp_bind.mpr (wp_recordClaimed hthere ?_)
    exact wp_broadcast hagent (hnote i i.now hi)

/-- A round on a row that is as the query loaded it. -/
theorem wp_failAndCascade {server : ServerId} (hg : w.db.tasks.get row.id = some row.task)
    (hd : row.task.isDone = false) (hagent : (w.db.agents.get row.task.agent).isSome = true)
    (hround : ∀ w', Round S ok row (w.setTimer server .autoInterrupt row.id none) w' →
      Q (.ok ()) w') :
    wp (exec S) ok (failAndCascade server row) Q w := by
  refine wp_bind.mpr (wp_cancelTimer ?_)
  generalize hw₀ : w.setTimer server .autoInterrupt row.id none = w₀ at hround
  have hdb : w₀.db = w.db := by rw [← hw₀]; rfl
  rw [← hdb] at hg hagent
  have hthere : (w₀.db.tasks.get row.id).isSome = true := by rw [hg]; rfl
  have hdisconnect : row.physical = false →
      (row.retryable = false ∨ w₀.db.redispatchable S row.id = false) →
      wp (exec S) ok (disconnectTask row.id) Q w₀ := fun hphys hno =>
    wp_disconnectTask hg hd (fun hkind => hround _ (.skip hphys hno hkind))
      fun now hkind => hround _ (.disconnect now hphys hno hkind)
  dsimp only [after, bind_eq]
  split
  · rename_i heffect
    have hphys : row.physical = true := decide_eq_true heffect
    exact wp_failPhysicalTask hg hd fun i now hi => hround _ (.strike i now hphys hi)
  · rename_i heffect
    have hphys : row.physical = false := decide_eq_false heffect
    split
    · rename_i hretry
      refine wp_bind.mpr (wp_buildRedispatchAssignSync hthere
        (fun hre => hdisconnect hphys (.inr hre)) fun assign htask hre => ?_)
      refine wp_requeueTask hg hd ?_ hagent fun i now hi =>
        hround _ (.requeue i now assign hphys hretry hre htask hi)
      simpa using (Bool.and_eq_true_iff.mp hretry).2
    · rename_i hretry
      exact hdisconnect hphys (.inl (Bool.eq_false_of_not_eq_true hretry))

end PersistBackend

/-! ## Whole cascades -/

/-- The database, where a round wrote: an event on the task of its row, and a save of it. -/
theorem Round.writes {row : InFlight} (h : Round S ok row w w') :
    w'.db = w.db ∨ ∃ event u now, event.task = row.id ∧
      w'.db = (w.db.record event).saveTask row.id u now := by
  cases h with
  | strike i now => exact .inr ⟨_, _, now, rfl, rfl⟩
  | requeue i now assign => exact .inr ⟨_, _, now, rfl, World.delivered_db⟩
  | disconnect now => exact .inr ⟨_, _, now, rfl, rfl⟩
  | skip => exact .inl rfl

theorem Round.evolves {row : InFlight} (h : Round S ok row w w') : w.db.Evolves w'.db := by
  rcases h.writes with hdb | ⟨event, u, now, _, hdb⟩
  · rw [hdb]; exact .refl
  · rw [hdb]; exact Database.evolves_record.trans Database.evolves_saveTask

theorem Round.agents_eq {row : InFlight} (h : Round S ok row w w') :
    w'.db.agents = w.db.agents := by
  rcases h.writes with hdb | ⟨event, u, now, _, hdb⟩
  · rw [hdb]
  · rw [hdb]; rfl

/-- A round leaves the other tasks alone. -/
theorem Round.get_of_ne {row : InFlight} (h : Round S ok row w w') (ht : t ≠ row.id) :
    w'.db.tasks.get t = w.db.tasks.get t := by
  rcases h.writes with hdb | ⟨event, u, now, _, hdb⟩
  · rw [hdb]
  · rw [hdb]; exact Database.get_saveTask_of_ne ht

/-- The row is as the query loaded it, and its agent is there. -/
structure InFlight.Current (agent : AgentId) (db : Database) (row : InFlight) : Prop where
  loaded : db.tasks.get row.id = some row.task
  «open» : row.task.isDone = false
  ofAgent : row.task.agent = agent
  there : (db.agents.get agent).isSome = true
  joined : row = db.inFlightRow row.id row.task

theorem InFlight.Current.physical_eq {agent : AgentId} {row : InFlight}
    (h : row.Current agent db) : row.physical = db.isPhysical row.task := by
  rw [h.joined]
  rfl

/-- What a cascade still has before it is current. -/
structure Current (agent : AgentId) (rows : List InFlight) (db : Database) : Prop where
  row : ∀ row ∈ rows, row.Current agent db
  nodup : (rows.map (·.id)).Nodup

/-- The agents of the tasks are there. -/
def Database.AgentsThere (db : Database) : Prop :=
  ∀ t task, db.tasks.get t = some task → (db.agents.get task.agent).isSome = true

theorem mem_inFlight {rank : Nat → Nat} {agent : AgentId} {row : InFlight} :
    row ∈ db.inFlight rank agent ↔ db.tasks.get row.id = some row.task ∧
      row.task.agent = agent ∧ row.task.isDone = false ∧ row = db.inFlightRow row.id row.task := by
  constructor
  · intro h
    obtain ⟨⟨id, task⟩, hmem, rfl⟩ := List.mem_map.mp h
    obtain ⟨hg, hp⟩ := Table.mem_selectBy.mp hmem
    obtain ⟨ha, hd⟩ := Bool.and_eq_true_iff.mp hp
    have hopen : task.isDone = false := by simpa using hd
    exact ⟨hg, of_decide_eq_true ha, hopen, rfl⟩
  · rintro ⟨hg, ha, hd, heq⟩
    refine List.mem_map.mpr ⟨(row.id, row.task), Table.mem_selectBy.mpr ⟨hg, ?_⟩, heq.symm⟩
    simp [ha, hd]

theorem current_inFlight {rank : Nat → Nat} {agent : AgentId}
    (h : ∀ t task, db.tasks.get t = some task → task.agent = agent →
      (db.agents.get agent).isSome = true) : Current agent (db.inFlight rank agent) db := by
  refine ⟨fun row hrow => ?_, ?_⟩
  · obtain ⟨hg, ha, hd, heq⟩ := mem_inFlight.mp hrow
    exact ⟨hg, hd, ha, h row.id row.task hg ha, heq⟩
  · have hids : (db.inFlight rank agent).map (·.id) =
        (db.tasks.selectBy rank fun _ task => task.agent = agent && !task.isDone).map Prod.fst := by
      rw [Database.inFlight, List.map_map]
      rfl
    rw [hids]
    exact Table.keys_selectBy_nodup

theorem Round.current {agent : AgentId} {row : InFlight} {rest : List InFlight}
    (h : Round S ok row w w') (hc : Current agent (row :: rest) w.db) :
    Current agent rest w'.db := by
  obtain ⟨hnot, hnodup⟩ := List.nodup_cons.mp hc.nodup
  refine ⟨fun other hother => ?_, hnodup⟩
  obtain ⟨hloaded, hopen, hagent, hthere, hjoined⟩ := hc.row other (List.mem_cons_of_mem _ hother)
  have hne : other.id ≠ row.id := fun heq =>
    hnot (List.mem_map.mpr ⟨other, hother, heq⟩)
  refine ⟨by rw [h.get_of_ne hne, hloaded], hopen, hagent, by rw [h.agents_eq, hthere], ?_⟩
  rw [Database.inFlightRow, h.evolves.implementations, h.evolves.actions]
  exact hjoined

namespace PersistBackend

/-- The rule for a cascade: what every round keeps, of what is still before it, the cascade ends
with. -/
theorem wp_orphanCascade {J : List InFlight → World → Prop} {server : ServerId} {agent : AgentId}
    {Q : Except Error Unit → World → Prop}
    (hagent : ∀ t task, w.db.tasks.get t = some task → task.agent = agent →
      (w.db.agents.get agent).isSome = true)
    (hstart : ∀ i : Input, J (w.db.inFlight i.rank agent) w)
    (htimer : ∀ rows w id, J rows w → J rows (w.setTimer server .autoInterrupt id none))
    (hround : ∀ row rest w w', Current agent (row :: rest) w.db → J (row :: rest) w →
      Round S ok row w w' → J rest w')
    (hend : ∀ w, J [] w → Q (.ok ()) w) : wp (exec S) ok (orphanCascade server agent) Q w := by
  refine wp_bind.mpr (wp_ask fun i => ?_)
  have hcur : Current agent (w.db.inFlight i.rank agent) w.db := current_inFlight hagent
  refine wp_forEach (I := fun rows (w : World) => Current agent rows w.db ∧ J rows w) ?_
    (fun w h => hend w h.2) ⟨hcur, hstart i⟩
  rintro row rest w ⟨hc, hJ⟩
  have hrow := hc.row row List.mem_cons_self
  refine wp_failAndCascade hrow.loaded hrow.open (by rw [hrow.ofAgent]; exact hrow.there)
    fun w' hr => ?_
  exact ⟨hr.current hc,
    hround row rest (w.setTimer server .autoInterrupt row.id none) w' hc (htimer _ w row.id hJ) hr⟩

end PersistBackend
end Rekuest
