import Rekuest.Tasks.Family

/-!
# Rekuest.Tasks.Sweep

A whole pass of `reconcile_tasks`, run alone, and an agent that has been gone for long.

* `Outcome`: what is said of orphaned work. `Accounted`: each task that was in flight has one.
* `Lost`: the row of the agent, as the pass may change it.
* `wp_cascade`: the cascade over the agent accounts for its work; no cascade takes it back.
* `sweep_leaves_no_orphan`: after the pass the agent is disconnected and its work accounted for.
-/

namespace Rekuest
namespace Sweep

open Interleave Interleave.Prog

/-- What reconciliation says of orphaned work. -/
inductive Outcome where
  | requeued | unknown | struck
  deriving DecidableEq

def Outcome.kind : Outcome → TaskEventKind
  | requeued => .queued
  | unknown => .disconnected
  | struck => .critical

/-- The task row shows the outcome; only physical work is struck down, and it is done. -/
structure Outcome.Shows (db : Database) (task : Task) (o : Outcome) : Prop where
  kind : task.latestEventKind = o.kind
  done : o = struck → db.isPhysical task = true ∧ task.isDone = true

/-- Every task that was in flight in the base world shows one outcome. -/
def Accounted (a : AgentId) (base w : World) : Prop :=
  ∀ t task, InHand a base.db t task → ∃ task', w.db.tasks.get t = some task' ∧
    ∃ o, Outcome.Shows w.db task' o

variable {S : Settings} {ok : Input → Stmt → World → Prop} {a b : AgentId} {base w w' : World}
  {t : TaskId} {seen : Time}

/-- No row shows two outcomes. -/
theorem Outcome.Shows.unique {db : Database} {task : Task} {o o' : Outcome}
    (h : o.Shows db task) (h' : o'.Shows db task) : o = o' := by
  have hkind : o.kind = o'.kind := h.kind.symm.trans h'.kind
  cases o <;> cases o' <;> first | rfl | cases hkind

theorem Outcome.Shows.evolves {db db' : Database} {task : Task} {o : Outcome}
    (h : o.Shows db task) (hev : db.Evolves db') : o.Shows db' task where
  kind := h.kind
  done ho := by
    rw [isPhysical_evolves hev .refl]
    exact h.done ho

/-! ## Cascades -/

/-- What a pass keeps: no new tasks, and what ended of the agent's work was struck down. -/
structure Kept (a : AgentId) (base w : World) : Prop where
  progresses : base.db.Progresses w.db
  ended : ∀ t task task', InHand a base.db t task → w.db.tasks.get t = some task' →
    task'.isDone = true → Outcome.struck.Shows w.db task'

theorem Kept.refl : Kept a w w where
  progresses := .refl
  ended t task task' ht hg' hd := by
    cases ht.stored.symm.trans hg'
    rw [ht.open] at hd
    cases hd

/-- Where the task table is left alone. -/
theorem Kept.of_tasks (h : Kept a base w) (hp : w.db.Progresses w'.db)
    (htasks : w'.db.tasks = w.db.tasks) : Kept a base w' where
  progresses := h.progresses.trans hp
  ended t task task' ht hg' hd := by
    rw [htasks] at hg'
    exact (h.ended t task task' ht hg' hd).evolves hp.toEvolves

/-- A round leaves the row of its task with an outcome. -/
theorem shows_round {row : InFlight} (hr : Round S ok row w w') (hc : row.Current b w.db) :
    ∃ task', w'.db.tasks.get row.id = some task' ∧ (∃ o, Outcome.Shows w'.db task' o) ∧
      (task'.isDone = true → Outcome.Shows w'.db task' .struck) := by
  have hnote : ∀ (kind : TaskEventKind) (message : Option EventText) (now : Time),
      ∃ task', (w.db.note row.id kind message now).tasks.get row.id = some task' ∧
        task'.isDone = false ∧ task'.latestEventKind = kind := by
    intro kind message now
    refine ⟨_, Database.get_saveTask_self.trans (by rw [Database.record_tasks, hc.loaded]; rfl),
      ?_, rfl⟩
    simp [TaskUpdate.apply, hc.open]
  have hopen : ∀ {task' : Task}, task'.isDone = false →
      task'.isDone = true → Outcome.Shows w'.db task' .struck := by
    intro task' ho hd
    rw [ho] at hd
    cases hd
  cases hr with
  | strike i now hp hok =>
    refine ⟨_, Database.get_finish_self hc.loaded, ?_⟩
    have hstruck : Outcome.Shows (w.db.finish row.id .critical
        (some PersistBackend.criticalMessage) now)
        (TaskUpdate.apply { latestEventKind := some .critical, done := true } now row.task)
        .struck := by
      refine ⟨rfl, fun _ => ⟨?_, by simp [TaskUpdate.apply]⟩⟩
      rw [isPhysical_evolves Database.evolves_finish .apply, ← hc.physical_eq, hp]
    exact ⟨⟨_, hstruck⟩, fun _ => hstruck⟩
  | requeue i now assign =>
    obtain ⟨task', hg', hd', hkind⟩ := hnote .queued (some PersistBackend.queuedMessage) now
    exact ⟨task', by rw [World.delivered_db]; exact hg', ⟨.requeued, hkind, fun h => by cases h⟩, hopen hd'⟩
  | disconnect now =>
    obtain ⟨task', hg', hd', hkind⟩ := hnote .disconnected
      (some PersistBackend.disconnectedMessage) now
    exact ⟨task', hg', ⟨.unknown, hkind, fun h => by cases h⟩, hopen hd'⟩
  | skip hp hno hkind => exact ⟨row.task, hc.loaded, ⟨.unknown, hkind, fun h => by cases h⟩, hopen hc.open⟩

theorem kept_round {row : InFlight} (hr : Round S ok row w w') (hc : row.Current b w.db)
    (h : Kept a base w) : Kept a base w' where
  progresses := h.progresses.trans (hr.progresses hc.loaded)
  ended t task task' ht hg' hd := by
    by_cases hne : t = row.id
    · subst hne
      obtain ⟨task'', hg'', _, hstruck⟩ := shows_round hr hc
      cases hg'.symm.trans hg''
      exact hstruck hd
    · rw [hr.get_of_ne hne] at hg'
      exact (h.ended t task task' ht hg' hd).evolves hr.evolves

/-- The task's row shows an outcome. -/
def Shown (w : World) (t : TaskId) : Prop :=
  ∃ task', w.db.tasks.get t = some task' ∧ ∃ o, Outcome.Shows w.db task' o

theorem shown_round_of_ne {row : InFlight} (hr : Round S ok row w w') (hne : t ≠ row.id)
    (h : Shown w t) : Shown w' t := by
  obtain ⟨task', hg', o, ho⟩ := h
  exact ⟨task', by rw [hr.get_of_ne hne, hg'], o, ho.evolves hr.evolves⟩

/-- A cascade keeps what is accounted for, and accounts for the work of its own agent. -/
theorem wp_cascade {server : ServerId} (hthere : (w.db.agents.get b).isSome = true)
    (h : Kept a base w) :
    wp (exec S) ok (PersistBackend.orphanCascade server b)
      (fun r w' => r = .ok () ∧ Kept a base w' ∧ w'.db.agents = w.db.agents ∧
        (b = a ∨ Accounted a base w → Accounted a base w')) w := by
  have hagent : ∀ t task, w.db.tasks.get t = some task → task.agent = b →
      (w.db.agents.get b).isSome = true := fun _ _ _ _ => hthere
  by_cases hb : b = a
  · subst hb
    refine PersistBackend.wp_orphanCascade (J := fun rows w' => Kept b base w' ∧
      w'.db.agents = w.db.agents ∧
      ∀ t task, InHand b base.db t task → (∃ row ∈ rows, row.id = t) ∨ Shown w' t) hagent
      (fun i => ⟨h, rfl, fun t task ht => ?_⟩) (fun rows w id hm => ⟨⟨hm.1.progresses, hm.1.ended⟩, hm.2⟩)
      (fun row rest w₁ w₂ hcur hm hr => ?_) fun w' hm => ⟨rfl, hm.1, hm.2.1, fun _ t task ht =>
        (hm.2.2 t task ht).resolve_left (by rintro ⟨row, hmem, _⟩; cases hmem)⟩
    · obtain ⟨task', hg', he⟩ := h.progresses.tasks ht.stored
      cases hd : task'.isDone with
      | true => exact .inr ⟨task', hg', .struck, h.ended t task task' ht hg' hd⟩
      | false =>
        exact .inl ⟨w.db.inFlightRow t task', mem_inFlight.mpr
          ⟨hg', by rw [← ht.agent, ← he.agent_eq]; rfl, hd, rfl⟩, rfl⟩
    · have hc := hcur.row row List.mem_cons_self
      refine ⟨kept_round hr hc hm.1, by rw [hr.agents_eq, hm.2.1], fun t task ht => ?_⟩
      by_cases hne : t = row.id
      · subst hne
        obtain ⟨task', hg', ho, _⟩ := shows_round hr hc
        exact .inr ⟨task', hg', ho⟩
      · refine (hm.2.2 t task ht).imp ?_ (shown_round_of_ne hr hne)
        rintro ⟨other, hmem, rfl⟩
        exact ⟨other, (List.mem_cons.mp hmem).resolve_left fun heq => hne (heq ▸ rfl), rfl⟩
  · refine PersistBackend.wp_orphanCascade (J := fun _ w' => Kept a base w' ∧
      w'.db.agents = w.db.agents ∧ (Accounted a base w → Accounted a base w')) hagent
      (fun i => ⟨h, rfl, id⟩) (fun rows w id hm => ⟨⟨hm.1.progresses, hm.1.ended⟩, hm.2⟩)
      (fun row rest w₁ w₂ hcur hm hr => ?_)
      fun w' hm => ⟨rfl, hm.1, hm.2.1, fun hacc => hm.2.2 (hacc.resolve_left hb)⟩
    have hc := hcur.row row List.mem_cons_self
    refine ⟨kept_round hr hc hm.1, by rw [hr.agents_eq, hm.2.1], fun hacc t task ht => ?_⟩
    exact shown_round_of_ne hr (ht.ne_row hm.1.progresses hc hb) (hm.2.2 hacc t task ht)

/-! ## The pass -/

/-- Every clock reading is past both windows after the last heartbeat. -/
def Late (S : Settings) (seen : Time) (i : Input) (_ : Stmt) (_ : World) : Prop :=
  seen < i.now - S.staleAfterSeconds ∧ seen < i.now - S.graceSeconds

/-- The row of the agent: no heartbeat came in. -/
structure Lost (a : AgentId) (seen : Time) (w : World) (row : Agent) : Prop where
  stored : w.db.agents.get a = some row
  kind : row.kind = .websocket
  seen : row.lastSeen = some seen

theorem agentIsLive_late {now : Time} {connected : Bool} (h : seen < now - S.staleAfterSeconds) :
    Liveness.agentIsLive S now connected (some seen) = false := by
  have hnot : ¬ now - S.staleAfterSeconds < seen := lt_asymm h
  simp [Liveness.agentIsLive, hnot]

/-- The reconciliation of one agent: of the lost one it accounts for the work. -/
theorem wp_reconcile {server : ServerId} {row : Agent} (h : Kept a base w)
    (hlost : Lost a seen w row) (hthere : (w.db.agents.get b).isSome = true) :
    wp (exec S) (Late S seen) (PersistBackend.reconcileOrphanedExecutorWork server b)
      (fun r w' => r = .ok () ∧ Kept a base w' ∧ w'.db.agents = w.db.agents ∧
        (b = a ∨ Accounted a base w → Accounted a base w')) w := by
  rw [PersistBackend.reconcileOrphanedExecutorWork_eq]
  intro i hi
  obtain ⟨agent, hagent⟩ := Option.isSome_iff_exists.mp hthere
  have hans : (exec S i (.read (.agentIsLive b)) w).1 =
      some (Liveness.agentIsLive S i.now agent.connected agent.lastSeen) := by
    show (w.db.agents.get b).map _ = _
    rw [hagent, Option.map_some]
  rw [hans]
  cases hlive : Liveness.agentIsLive S i.now agent.connected agent.lastSeen with
  | false => exact wp_cascade hthere h
  | true =>
    refine ⟨rfl, h, rfl, fun hacc => hacc.resolve_left ?_⟩
    rintro rfl
    cases hagent.symm.trans hlost.stored
    rw [hlost.seen, agentIsLive_late hi.1] at hlive
    cases hlive

/-- A revoke leaves the lost agent disconnected if it is its own, and lost in any case. -/
theorem lost_revoke {i : Input} {row : Agent} (hi : Late S seen i (.lease (.revoke b)) w)
    (hlost : Lost a seen w row) :
    ∃ row', Lost a seen (exec S i (.lease (.revoke b)) w).2 row' ∧
      (row.connected = false ∨ b = a → row'.connected = false) := by
  have hget : (exec S i (.lease (.revoke b)) w).2.db.agents.get a =
      if a = b then (w.db.agents.get a).map fun agent =>
        agent.setLease (agent.toLeaseColumns.revoke S i).2
      else w.db.agents.get a := LeaseStmt.get_exec
  by_cases hb : a = b
  · subst hb
    rw [if_pos rfl, hlost.stored, Option.map_some] at hget
    refine ⟨_, ⟨hget, hlost.kind, ?_⟩, fun _ => ?_⟩
    · unfold LeaseColumns.revoke
      split <;> exact hlost.seen
    · simp only [LeaseColumns.revoke, Liveness.agentIsStale, hlost.seen, agentIsLive_late hi.1,
        Bool.not_false, Bool.and_true]
      cases hc : row.connected with
      | true => rfl
      | false => exact hc
  · rw [if_neg hb, hlost.stored] at hget
    exact ⟨row, ⟨hget, hlost.kind, hlost.seen⟩,
      fun h => h.resolve_right fun heq => hb heq.symm⟩

/-- The world in the middle of a pass. -/
structure Passing (a : AgentId) (seen : Time) (base w : World) (connected : Bool) : Prop where
  kept : Kept a base w
  lost : ∃ row, Lost a seen w row ∧ (connected = false → row.connected = false)

theorem Passing.of_agents {connected : Bool} (h : Passing a seen base w connected)
    (hk : Kept a base w') (hagents : w'.db.agents = w.db.agents) :
    Passing a seen base w' connected := by
  obtain ⟨row, ⟨hg, hkind, hseen⟩, hc⟩ := h.lost
  exact ⟨hk, row, ⟨by rw [hagents, hg], hkind, hseen⟩, hc⟩

/-- The first phase: by its end the lost agent is disconnected, if it was listed or was so before. -/
theorem wp_healAgents {server : ServerId} {agents : List AgentId} {connected : Bool}
    (h : Passing a seen base w connected)
    (hthere : ∀ b ∈ agents, (w.db.agents.get b).isSome = true)
    (ha : a ∈ agents ∨ connected = false) :
    wp (exec S) (Late S seen) (PersistBackend.healAgents server agents)
      (fun r w' => (∃ n, r = .ok n) ∧ Passing a seen base w' false) w := by
  induction agents generalizing w connected with
  | nil =>
    have hc : connected = false := ha.resolve_left (List.not_mem_nil)
    exact ⟨⟨0, rfl⟩, hc ▸ h⟩
  | cons b agents ih =>
    have hb := hthere b List.mem_cons_self
    refine wp_bind.mpr (wp_bind.mpr fun i hi => ?_)
    obtain ⟨row, hlost, hrow⟩ := h.lost
    obtain ⟨row', hlost', hrow'⟩ := lost_revoke hi hlost
    obtain ⟨htasks, hevents⟩ := exec_not_task (S := S) (i := i) (w := w)
      (c := .lease (.revoke b)) fun s hs => by cases hs
    have hkept : Kept a base (exec S i (.lease (.revoke b)) w).2 :=
      h.kept.of_tasks (progresses_exec trivial) htasks
    have hstill : ∀ d ∈ b :: agents,
        ((exec S i (.lease (.revoke b)) w).2.db.agents.get d).isSome = true := fun d hd =>
      exec_agents_there (hthere d hd)
    have hans : (exec S i (.lease (.revoke b)) w).1.isSome = true := by
      obtain ⟨agent, hagent⟩ := Option.isSome_iff_exists.mp hb
      simp only [exec, LeaseStmt.exec, LeaseStmt.target, hagent]
      rfl
    generalize exec S i (.lease (.revoke b)) w = answer at *
    obtain ⟨answer, w'⟩ := answer
    dsimp only at hlost' hkept hstill hans ⊢
    obtain ⟨won, rfl⟩ := Option.isSome_iff_exists.mp hans
    -- the agent is disconnected now, unless it comes later in the list
    have hnext : ∃ connected', Passing a seen base w' connected' ∧
        (a ∈ agents ∨ connected' = false) := by
      rcases ha with hmem | hc
      · rcases List.mem_cons.mp hmem with rfl | hmem
        · exact ⟨false, ⟨hkept, row', hlost', fun _ => hrow' (.inr rfl)⟩, .inr rfl⟩
        · exact ⟨true, ⟨hkept, row', hlost', fun h => by cases h⟩, .inl hmem⟩
      · exact ⟨false, ⟨hkept, row', hlost', fun _ => hrow' (.inl (hrow hc))⟩, .inr rfl⟩
    obtain ⟨connected', hpass, ha'⟩ := hnext
    cases won with
    | false => exact ih hpass (fun d hd => hstill d (List.mem_cons_of_mem _ hd)) ha'
    | true =>
      refine wp_bind.mpr (wp_mono ?_
        (wp_reconcile hkept hlost' (hstill b List.mem_cons_self)))
      rintro r w'' ⟨rfl, hkept'', hagents, _⟩
      refine wp_bind.mpr (wp_mono ?_ (ih (hpass.of_agents hkept'' hagents)
        (fun d hd => by rw [hagents]; exact hstill d (List.mem_cons_of_mem _ hd)) ha'))
      rintro r w₃ ⟨⟨n, rfl⟩, hpass'⟩
      exact ⟨⟨n + 1, rfl⟩, hpass'⟩

/-- The second phase: the work of the lost agent is accounted for, if it was listed or was so
before. -/
theorem wp_reconcileAll {server : ServerId} {agents : List AgentId}
    (h : Passing a seen base w false) (hthere : ∀ b ∈ agents, (w.db.agents.get b).isSome = true)
    (ha : a ∈ agents ∨ Accounted a base w) :
    wp (exec S) (Late S seen)
      (Prog.forEach (PersistBackend.reconcileOrphanedExecutorWork server) agents)
      (fun r w' => r = .ok () ∧ Passing a seen base w' false ∧ Accounted a base w') w := by
  refine wp_forEach (I := fun rest (w' : World) => Passing a seen base w' false ∧
    (∀ b ∈ rest, (w'.db.agents.get b).isSome = true) ∧ (a ∈ rest ∨ Accounted a base w'))
    (fun b rest w₁ h₁ => ?_) (fun w' h' => ⟨rfl, h'.1, h'.2.2.resolve_left List.not_mem_nil⟩)
    ⟨h, hthere, ha⟩
  obtain ⟨hpass, hthere₁, ha₁⟩ := h₁
  obtain ⟨row, hlost, hrow⟩ := hpass.lost
  refine wp_mono ?_ (wp_reconcile hpass.kept hlost (hthere₁ b List.mem_cons_self))
  rintro r w₂ ⟨rfl, hkept, hagents, hacc⟩
  refine ⟨hpass.of_agents hkept hagents,
    fun d hd => by rw [hagents]; exact hthere₁ d (List.mem_cons_of_mem _ hd), ?_⟩
  rcases ha₁ with hmem | hdone
  · rcases List.mem_cons.mp hmem with rfl | hmem
    · exact .inr (hacc (.inl rfl))
    · exact .inl hmem
  · exact .inr (hacc (.inr hdone))

/-- The whole pass. -/
theorem wp_reconcileTasks (server : ServerId) {row : Agent} (hlost : Lost a seen w row) :
    wp (exec S) (Late S seen) (PersistBackend.reconcileTasks server)
      (fun r w' => r = .ok () ∧ Passing a seen w w' false ∧ Accounted a w w') w := by
  refine wp_bind.mpr (wp_bind.mpr fun i hi => ?_)
  have hstart : Passing a seen w w row.connected := ⟨.refl, row, hlost, id⟩
  show wp (exec S) (Late S seen) (PersistBackend.healAgents server _) _ w
  refine wp_mono ?_ (wp_healAgents hstart (fun b hb => ?_) ?_)
  · rintro r w₁ ⟨⟨n, rfl⟩, hpass⟩
    refine wp_bind.mpr fun j hj => ?_
    obtain ⟨row₁, hlost₁, hrow₁⟩ := hpass.lost
    refine wp_reconcileAll hpass (fun b hb => ?_) ?_
    · obtain ⟨⟨k, agent⟩, hmem, rfl⟩ := List.mem_map.mp hb
      exact Option.isSome_iff_exists.mpr ⟨agent, (Table.mem_selectBy.mp hmem).1⟩
    · by_cases hempty : (w₁.db.inFlight j.rank a).isEmpty = true
      · refine .inr fun t task ht => ?_
        obtain ⟨task', hg', he⟩ := hpass.kept.progresses.tasks ht.stored
        refine ⟨task', hg', .struck, hpass.kept.ended t task task' ht hg' ?_⟩
        cases hd : task'.isDone with
        | true => rfl
        | false =>
          have hmem : w₁.db.inFlightRow t task' ∈ w₁.db.inFlight j.rank a :=
            mem_inFlight.mpr ⟨hg', by rw [← ht.agent, ← he.agent_eq]; rfl, hd, rfl⟩
          rw [List.isEmpty_iff.mp hempty] at hmem
          cases hmem
      · refine .inl (List.mem_map.mpr ⟨(a, row₁), Table.mem_selectBy.mpr ⟨hlost₁.stored, ?_⟩, rfl⟩)
        simp [hlost₁.kind, hrow₁ rfl, hlost₁.seen, hj.2, hempty]
  · obtain ⟨⟨k, agent⟩, hmem, rfl⟩ := List.mem_map.mp hb
    exact Option.isSome_iff_exists.mpr ⟨agent, (Table.mem_selectBy.mp hmem).1⟩
  · cases hc : row.connected with
    | false => exact .inr rfl
    | true =>
      refine .inl (List.mem_map.mpr ⟨(a, row), Table.mem_selectBy.mpr ⟨hlost.stored, ?_⟩, rfl⟩)
      simp [Liveness.staleAgentQ, hlost.kind, hc, hlost.seen, hi.1]

theorem meets_late {α : Type} {p : Handler α} {i : Nat → Input}
    (h : ∀ n, seen < (i n).now - S.staleAfterSeconds ∧ seen < (i n).now - S.graceSeconds) :
    Meets (exec S) (Late S seen) p i w := by
  induction p generalizing i w with
  | ret a => trivial
  | fail e => trivial
  | stmt c k ih => exact ⟨h 0, ih _ fun n => h (n + 1)⟩

/-- **The sweep leaves no orphan behind**: of an agent gone for longer than both windows. -/
theorem sweep_leaves_no_orphan (S : Settings) (server : ServerId) (w : World) (i : Nat → Input)
    (a : AgentId) (row : Agent) (seen : Time) (hrow : w.db.agents.get a = some row)
    (hkind : row.kind = .websocket) (hseen : row.lastSeen = some seen)
    (hlate : ∀ n, seen < (i n).now - S.staleAfterSeconds ∧ seen < (i n).now - S.graceSeconds) :
    let r := (PersistBackend.reconcileTasks server).run (exec S) i w
    r.result = .ok () ∧ (∃ row', r.state.db.agents.get a = some row' ∧ row'.connected = false) ∧
      ∀ t task, InHand a w.db t task → ∃ task', r.state.db.tasks.get t = some task' ∧
        ∃! o, Outcome.Shows r.state.db task' o := by
  have hlost : Lost a seen w row := ⟨hrow, hkind, hseen⟩
  obtain ⟨hok, hpass, hacc⟩ := wp_run (wp_reconcileTasks server hlost)
    (meets_late hlate)
  refine ⟨hok, ?_, fun t task ht => ?_⟩
  · obtain ⟨row', hlost', hc⟩ := hpass.lost
    exact ⟨row', hlost'.stored, hc rfl⟩
  · obtain ⟨task', hg', o, ho⟩ := hacc t task ht
    exact ⟨task', hg', o, ho, fun o' ho' => ho'.unique ho⟩

/-- Agent 1 with its `connected` flag stuck and a heartbeat at time 0, and its open task 1. -/
def strandedAgent : Agent where
  name := "agent"
  app := "app"
  release := "1"
  hash := "hash"
  connected := true
  lastSeen := some 0
  user := ⟨1, "user"⟩
  client := ⟨1, "client"⟩
  organization := ⟨1, "org"⟩

def strandedWorld : World :=
  let base := runningWorld .none
  { base with db := { base.db with agents := Table.empty.insert strandedAgent } }

theorem sweep_leaves_no_orphan_stranded :
    let r := (PersistBackend.reconcileTasks 0).run (exec {}) (fun _ => { now := 100 }) strandedWorld
    r.result = .ok () ∧ (∃ row', r.state.db.agents.get 1 = some row' ∧ row'.connected = false) ∧
      ∀ t task, InHand 1 strandedWorld.db t task → ∃ task', r.state.db.tasks.get t = some task' ∧
        ∃! o, Outcome.Shows r.state.db task' o :=
  sweep_leaves_no_orphan {} 0 strandedWorld (fun _ => { now := 100 }) 1 strandedAgent 0 rfl rfl rfl
    fun _ => by decide

end Sweep
end Rekuest
