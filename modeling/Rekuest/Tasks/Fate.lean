import Rekuest.Tasks.Family
import Rekuest.Tasks.Resend

/-!
# Rekuest.Tasks.Fate

The fate of a higher-order wrapper and of the child that runs for it, handlers one at a time.

* `Open`, `Ended`: a task that has no outcome yet, and one that ended with an event.
* `Even`: two tasks are both open, or both ended with the same kind.
* `ReportSound`, `SilentSound`, `StrikesBoth`: a report, a silent-operation timer and a cascade
  that finish no pair on one side only.
* `fate_shared`: in every run of sound calls every pair is even, and what ended stays as it is.
  `cascade_strikes_child_only`: a physical child without a physical wrapper is struck alone.
-/

namespace Rekuest
namespace Fate

open Interleave Interleave.Prog

variable {S : Settings} {ok : Input → Stmt → World → Prop} {w : World} {db db' : Database}
  {t id x y : TaskId} {kind : TaskEventKind} {message : Option EventText} {now : Time}
  {u : TaskUpdate}

/-! ## Outcomes -/

/-- The task is not done, and has no terminal event. -/
def Open (t : TaskId) (db : Database) : Prop :=
  (∃ task, db.tasks.get t = some task ∧ task.isDone = false) ∧ terminalEvents db t = []

/-- The task is done with the kind of its one terminal event. -/
def Ended (t : TaskId) (e : TaskEvent) (db : Database) : Prop :=
  (∃ task, db.tasks.get t = some task ∧ task.isDone = true ∧ task.latestEventKind = e.kind) ∧
    terminalEvents db t = [e]

inductive Even (x y : TaskId) (db : Database) : Prop where
  | «open» (hx : Open x db) (hy : Open y db)
  | ended (e e' : TaskEvent) (hx : Ended x e db) (hy : Ended y e' db) (hkind : e.kind = e'.kind)

theorem Even.symm (h : Even x y db) : Even y x db := by
  cases h with
  | «open» hx hy => exact .open hy hx
  | ended e e' hx hy hkind => exact .ended e' e hy hx hkind.symm

/-- Open tasks stay open, and what ended stays as it ended. -/
structure SameOutcome (t : TaskId) (db db' : Database) : Prop where
  «open» : Open t db → Open t db'
  ended : ∀ e, Ended t e db → Ended t e db'

theorem SameOutcome.even (hx : SameOutcome x db db') (hy : SameOutcome y db db')
    (h : Even x y db) : Even x y db' := by
  cases h with
  | «open» ox oy => exact .open (hx.open ox) (hy.open oy)
  | ended e e' ex ey hkind => exact .ended e e' (hx.ended e ex) (hy.ended e' ey) hkind

variable {e : TaskEvent}

namespace SameOutcome

theorem refl : SameOutcome t db db := ⟨id, fun _ => id⟩

theorem trans {db'' : Database} (h : SameOutcome t db db') (h' : SameOutcome t db' db'') :
    SameOutcome t db db'' :=
  ⟨fun ho => h'.open (h.open ho), fun e he => h'.ended e (h.ended e he)⟩

theorem of_eq (hget : ∀ task, db.tasks.get t = some task → db'.tasks.get t = some task)
    (hevents : terminalEvents db' t = terminalEvents db t) : SameOutcome t db db' where
  «open» := fun ⟨⟨task, hg, hd⟩, ho⟩ => ⟨⟨task, hget task hg, hd⟩, hevents.trans ho⟩
  ended := fun _ ⟨⟨task, hg, hd, hk⟩, he⟩ => ⟨⟨task, hget task hg, hd, hk⟩, hevents.trans he⟩

theorem record (h : e.task ≠ t ∨ e.kind.isTerminal = false) : SameOutcome t db (db.record e) := by
  refine of_eq (fun _ hg => hg) ?_
  rw [show terminalEvents (db.record e) t = _ from terminalEvents_append, if_neg, List.append_nil]
  rintro ⟨ht, hk⟩
  rcases h with h | h
  · exact h ht
  · rw [h] at hk; cases hk

theorem saveTask_of_ne (h : t ≠ id) : SameOutcome t db (db.saveTask id u now) :=
  of_eq (fun _ hg => (Database.get_saveTask_of_ne h).trans hg)
    (terminalEvents_of_events Database.saveTask_events)

/-- A save that does not end the task changes the kind of no task that ended. -/
theorem saveTask (hu : u.done = false)
    (hopen : u.latestEventKind = none ∨ ∃ task, db.tasks.get id = some task ∧ task.isDone = false) :
    SameOutcome t db (db.saveTask id u now) := by
  by_cases ht : t = id
  swap
  · exact saveTask_of_ne ht
  subst ht
  have hevents : terminalEvents (db.saveTask t u now) t = terminalEvents db t :=
    terminalEvents_of_events Database.saveTask_events
  have hget : ∀ {task}, db.tasks.get t = some task →
      (db.saveTask t u now).tasks.get t = some (u.apply now task) := fun hg => by
    rw [Database.get_saveTask_self, hg]; rfl
  constructor
  · rintro ⟨⟨task, hg, hd⟩, ho⟩
    exact ⟨⟨_, hget hg, by simp [TaskUpdate.apply, hd, hu]⟩, hevents.trans ho⟩
  · rintro e ⟨⟨task, hg, hd, hk⟩, he⟩
    refine ⟨⟨_, hget hg, by simp [TaskUpdate.apply, hd], ?_⟩, hevents.trans he⟩
    rcases hopen with hu | ⟨task', hg', hd'⟩
    · simp [TaskUpdate.apply, hu, hk]
    · cases hg.symm.trans hg'
      rw [hd] at hd'
      cases hd'

/-- The event and the save of a task that goes on. -/
theorem recordSave (hk : e.kind.isTerminal = false) (hu : u.done = false)
    (hopen : ∃ task, db.tasks.get id = some task ∧ task.isDone = false) :
    SameOutcome t db ((db.record e).saveTask id u now) :=
  (record (.inr hk)).trans (saveTask hu (.inr hopen))

theorem recordSave_of_ne (he : e.task ≠ t) (hid : t ≠ id) :
    SameOutcome t db ((db.record e).saveTask id u now) :=
  (record (.inl he)).trans (saveTask_of_ne hid)

/-- Every quiet statement. -/
theorem exec {i : Input} {c : Stmt} (hc : c.Quiet) :
    SameOutcome t w.db (exec S i c w).2.db := by
  by_cases htask : ∃ s, c = .task s
  · obtain ⟨s, rfl⟩ := htask
    rw [exec_task_db]
    cases s with
    | create row => exact hc.elim
    | createEvent event =>
      rw [createEvent_exec]
      split
      · exact record (.inr hc)
      · exact refl
    | save id u => exact saveTask hc.2 (.inl hc.1)
    | claimTransition id toKind markDone skip => exact hc.elim
  · obtain ⟨htasks, hevents⟩ := exec_not_task (S := S) (i := i) (w := w)
      fun s hs => htask ⟨s, hs⟩
    exact of_eq (fun _ hg => by rw [htasks, hg]) (terminalEvents_of_events hevents)

/-- A new task leaves the others alone. -/
theorem withTask {row : Task} : SameOutcome t w.db (w.withTask row).db :=
  of_eq (fun _ hg => Table.get_insert_of_get hg) rfl

end SameOutcome

/-- The event and the save that end an open task. -/
theorem ended_close (ho : Open e.task db) (hk : e.kind.isTerminal = true)
    (hu : u.done = true) (hkind : u.latestEventKind = some e.kind) :
    Ended e.task e ((db.record e).saveTask e.task u now) := by
  obtain ⟨⟨task, hg, hd⟩, hnone⟩ := ho
  refine ⟨⟨u.apply now task, ?_, by simp [TaskUpdate.apply, hu], ?_⟩, ?_⟩
  · rw [Database.get_saveTask_self, Database.record_tasks, hg]; rfl
  · simp [TaskUpdate.apply, hkind]
  · rw [terminalEvents_of_events Database.saveTask_events,
      show terminalEvents (db.record e) e.task = _ from terminalEvents_append, if_pos ⟨rfl, hk⟩,
      hnone]
    rfl

/-- A new task is open. -/
theorem open_withTask {row : Task} (h : Family w.db) (hd : row.isDone = false) :
    Open w.db.tasks.next (w.withTask row).db := by
  refine ⟨⟨row, Table.get_insert_next, hd⟩, ?_⟩
  refine List.filter_eq_nil_iff.mpr fun e he => ?_
  obtain ⟨hmem, htask⟩ := List.mem_filter.mp he
  obtain ⟨task, hg⟩ := Option.isSome_iff_exists.mp (h.events e hmem)
  rw [of_decide_eq_true htask, Table.get_next] at hg
  cases hg

/-! ## Pairs stay even -/

/-- Every pair is even. -/
structure Together (db : Database) : Prop where
  family : Family db
  even : ∀ x y, y ∈ db.partners x → Even x y db

/-- What had ended in a pair of `base` is as it was. -/
def Frozen (base db : Database) : Prop :=
  ∀ t e, base.partners t ≠ [] → Ended t e base → Ended t e db

/-- What is kept while a call runs that began with `base`. -/
def Kept (base : Database) (w : World) : Prop := Together w.db ∧ Frozen base w.db

variable {base : Database}

theorem Frozen.sameOutcome (h : Frozen base db) (hs : ∀ t, SameOutcome t db db') :
    Frozen base db' :=
  fun t e hp he => (hs t).ended e (h t e hp he)

theorem Together.sameOutcome (h : Together db) (hp : db.Progresses db')
    (hs : ∀ t, SameOutcome t db db') : Together db' :=
  ⟨h.family.progresses hp, fun x y hy =>
    (hs x).even (hs y) (h.even x y (hp.mem_partners_iff.mp hy))⟩

theorem Together.withRoot {row : Task} (h : Together w.db) (hadmits : w.db.admits row = true)
    (hroot : row.root = none) : Together (w.withTask row).db := by
  refine ⟨h.family.withRoot hadmits hroot, fun x y hy => ?_⟩
  have hold : ∀ {c t}, c ∈ (w.withTask row).db.children t → c ∈ w.db.children t := by
    intro c t hc
    rcases mem_children_withTask.mp hc with ⟨_, hr⟩ | hc
    · rw [hroot] at hr; cases hr
    · exact hc
  have hy' := mem_partners.mpr ((mem_partners.mp hy).imp hold hold)
  exact SameOutcome.withTask.even SameOutcome.withTask (h.even x y hy')

theorem Together.withPair {wrapper child : Task} (h : Together w.db)
    (hwrapper : w.db.admits wrapper = true) (hwd : wrapper.isDone = false)
    (hroot : wrapper.root = none) (hw : w.db.IsWrapper wrapper) (hcd : child.isDone = false)
    (hparent : child.parent = some w.db.tasks.next) (hr : child.root = some w.db.tasks.next)
    (hchild : (w.withTask wrapper).db.admits child = true) :
    Together ((w.withTask wrapper).withTask child).db := by
  have hfam := h.family.withRoot hwrapper hroot
  have hmade := h.withRoot hwrapper hroot
  have hnew : ∀ {c t}, c ∈ ((w.withTask wrapper).withTask child).db.children t →
      Even t c ((w.withTask wrapper).withTask child).db := by
    intro c t hc
    rcases mem_children_withTask.mp hc with ⟨rfl, hrt⟩ | hold
    · cases hr.symm.trans hrt
      exact .open (SameOutcome.withTask.open (open_withTask h.family hwd)) (open_withTask hfam hcd)
    · exact SameOutcome.withTask.even SameOutcome.withTask
        (hmade.even t c (mem_partners.mpr (.inl hold)))
  refine ⟨h.family.withPair hwrapper hroot hw hparent hr hchild, fun x y hy => ?_⟩
  rcases mem_partners.mp hy with hc | hc
  · exact hnew hc
  · exact (hnew hc).symm

theorem kept_quiet {i : Input} {c : Stmt} (hc : c.Quiet) (h : Kept base w) :
    Kept base (exec S i c w).2 :=
  ⟨h.1.sameOutcome (progresses_exec hc) fun _ => .exec hc,
    h.2.sameOutcome fun _ => .exec hc⟩

/-- Assigns and control requests. -/
theorem kept_takesWork : TakesWork S (Kept base) where
  quiet _ _ _ hc h := kept_quiet hc h
  root w row h hadmits hd hroot :=
    ⟨h.1.withRoot hadmits hroot, h.2.sameOutcome fun _ => .withTask⟩
  pair w wrapper child h hwrapper hwd hroot hw hcd hparent hr hchild :=
    ⟨h.1.withPair hwrapper hwd hroot hw hcd hparent hr hchild,
      h.2.sameOutcome fun _ => SameOutcome.withTask.trans .withTask⟩
  push w agent m h hruns := by
    unfold Kept
    rw [World.delivered_db]
    exact h

/-! ## Cascades -/

/-- The task that a claimed transition ends. -/
def endsTask : Stmt → Option TaskId
  | .task (.claimTransition id _ true _) => some id
  | _ => none

/-- Where the claim of CRITICAL lands, the other side is on the same agent and physical too. -/
def StrikesBoth (_ : Input) (c : Stmt) (w : World) : Prop :=
  ∀ x ∈ endsTask c, ∀ row ∈ w.db.tasks.get x, row.isDone = false → ∀ y ∈ w.db.partners x,
    ((w.db.tasks.get y).any fun other => other.agent = row.agent && w.db.isPhysical other) = true

instance (i : Input) (c : Stmt) (w : World) : Decidable (StrikesBoth i c w) :=
  inferInstanceAs (Decidable (∀ x ∈ endsTask c, ∀ row ∈ w.db.tasks.get x, row.isDone = false →
    ∀ y ∈ w.db.partners x,
      ((w.db.tasks.get y).any fun other => other.agent = row.agent && w.db.isPhysical other) =
        true))

/-- The first task was struck down, and the cascade still has the second before it. -/
structure Struck (x y : TaskId) (rows : List InFlight) (db : Database) : Prop where
  ended : ∃ e, Ended x e db ∧ e.kind = .critical
  «open» : Open y db
  next : ∃ row ∈ rows, row.id = y ∧ row.physical = true

/-- What holds in the middle of a cascade over the tasks of an agent. -/
structure Midway (base : Database) (agent : AgentId) (rows : List InFlight) (w : World) :
    Prop where
  family : Family w.db
  frozen : Frozen base w.db
  pairs : ∀ x y, y ∈ w.db.partners x →
    Even x y w.db ∨ Struck x y rows w.db ∨ Struck y x rows w.db
  before : ∀ t task, w.db.tasks.get t = some task → task.isDone = false → task.agent = agent →
    w.db.isPhysical task = true → ∃ row ∈ rows, row.id = t

variable {row : InFlight} {rest : List InFlight} {agent : AgentId} {w' : World}

theorem not_done_of_open {task : Task} (ho : Open t db) (hg : db.tasks.get t = some task) :
    task.isDone = false := by
  obtain ⟨⟨task', hg', hd⟩, _⟩ := ho
  cases hg.symm.trans hg'
  exact hd

theorem not_ended_of_current (hc : row.Current agent db) : ¬ Ended row.id e db := by
  rintro ⟨⟨task, hg, hd, _⟩, _⟩
  cases hc.loaded.symm.trans hg
  rw [hc.open] at hd
  cases hd

theorem mem_rest {r : InFlight} (hmem : r ∈ row :: rest) (hne : r.id ≠ row.id) : r ∈ rest := by
  rcases List.mem_cons.mp hmem with rfl | h
  · exact absurd rfl hne
  · exact h

/-- A round on a task that is not physical ends nothing. -/
theorem sameOutcome_round (h : Round S ok row w w') (hphys : row.physical = false)
    (hc : row.Current agent w.db) : SameOutcome t w.db w'.db := by
  have hopen : ∃ task, w.db.tasks.get row.id = some task ∧ task.isDone = false :=
    ⟨_, hc.loaded, hc.open⟩
  cases h with
  | strike i now hp => rw [hphys] at hp; cases hp
  | requeue i now assign =>
    rw [World.delivered_db]
    exact .recordSave rfl rfl hopen
  | disconnect now => exact .recordSave rfl rfl hopen
  | skip => exact .refl

/-- What is open and physical is still before the cascade. -/
theorem before_round (h : Round S ok row w w') (hc : row.Current agent w.db)
    (hbefore : ∀ t task, w.db.tasks.get t = some task → task.isDone = false →
      task.agent = agent → w.db.isPhysical task = true → ∃ r ∈ row :: rest, r.id = t)
    {task' : Task} (hg' : w'.db.tasks.get t = some task') (hd : task'.isDone = false)
    (ha : task'.agent = agent) (hp : w'.db.isPhysical task' = true) :
    ∃ r ∈ rest, r.id = t := by
  have hprog := h.progresses hc.loaded
  obtain ⟨task, hg⟩ := Option.isSome_iff_exists.mp (hprog.old hg')
  obtain ⟨task'', hg'', he⟩ := hprog.tasks hg
  cases hg'.symm.trans hg''
  have hopen : task.isDone = false := by
    by_contra hne
    have := he.done (by simpa using hne)
    rw [hd] at this
    cases this
  rw [isPhysical_evolves hprog.toEvolves he] at hp
  obtain ⟨r, hr, rfl⟩ := hbefore t task hg hopen (he.agent_eq ▸ ha) hp
  refine ⟨r, mem_rest hr fun hid => ?_, rfl⟩
  rw [hid] at hg hg'
  cases hc.loaded.symm.trans hg
  have hphys : row.physical = true := hc.physical_eq.trans hp
  cases h with
  | strike i now =>
    cases hg'.symm.trans (Database.get_finish_self hc.loaded)
    simp [TaskUpdate.apply] at hd
  | requeue i now assign hno => rw [hphys] at hno; cases hno
  | disconnect now hno => rw [hphys] at hno; cases hno
  | skip hno => rw [hphys] at hno; cases hno

/-- A pair whose first side is struck down. -/
theorem pair_strike {now : Time} {i : Input} (hcur : Current agent (row :: rest) w.db)
    (h : Midway base agent (row :: rest) w) (hy : y ∈ w.db.partners row.id)
    (hok : StrikesBoth i (.task (.claimTransition row.id .critical true none)) w) :
    let db' := w.db.finish row.id .critical (some PersistBackend.criticalMessage) now
    Even row.id y db' ∨ Struck row.id y rest db' ∨ Struck y row.id rest db' := by
  intro db'
  have hc := hcur.row row List.mem_cons_self
  have hne : y ≠ row.id := h.family.partner_ne hy
  have hsame : SameOutcome y w.db db' := .recordSave_of_ne hne.symm hne
  have hclose : Open row.id w.db → Ended row.id ⟨row.id, .critical, none, none, none,
      some PersistBackend.criticalMessage⟩ db' := fun ho =>
    ended_close (e := ⟨row.id, .critical, none, none, none, some PersistBackend.criticalMessage⟩)
      ho rfl rfl rfl
  rcases h.pairs row.id y hy with heven | hstruck | hstruck
  · cases heven with
    | ended e e' hx => exact absurd hx (not_ended_of_current hc)
    | «open» hx hyo =>
      obtain ⟨other, hg, hp⟩ :=
        (Option.any_eq_true _ _).mp (hok row.id rfl row.task hc.loaded hc.open y hy)
      obtain ⟨ha, hp⟩ := Bool.and_eq_true_iff.mp hp
      obtain ⟨r, hr, rfl⟩ := h.before y other hg (not_done_of_open hyo hg)
        ((of_decide_eq_true ha).trans hc.ofAgent) hp
      have hrc := hcur.row r hr
      cases hrc.loaded.symm.trans hg
      exact .inr (.inl ⟨⟨_, hclose hx, rfl⟩, hsame.open hyo, r, mem_rest hr hne, rfl,
        hrc.physical_eq.trans hp⟩)
  · obtain ⟨e, he, _⟩ := hstruck.ended
    exact absurd he (not_ended_of_current hc)
  · obtain ⟨e, he, hk⟩ := hstruck.ended
    exact .inl (.ended _ e (hclose hstruck.open) (hsame.ended e he) hk.symm)

/-- A round that strikes nothing down. -/
theorem pair_calm (hr : Round S ok row w w') (hphys : row.physical = false)
    (hcur : Current agent (row :: rest) w.db) (h : Midway base agent (row :: rest) w)
    (hy : y ∈ w.db.partners x) :
    Even x y w'.db ∨ Struck x y rest w'.db ∨ Struck y x rest w'.db := by
  have hsame : ∀ t, SameOutcome t w.db w'.db := fun t =>
    sameOutcome_round hr hphys (hcur.row row List.mem_cons_self)
  have hstruck : ∀ {a b}, Struck a b (row :: rest) w.db → Struck a b rest w'.db := by
    rintro a b ⟨⟨e, he, hk⟩, ho, r, hmem, hid, hp⟩
    refine ⟨⟨e, (hsame a).ended e he, hk⟩, (hsame b).open ho, r, ?_, hid, hp⟩
    rcases List.mem_cons.mp hmem with rfl | hmem
    · rw [hphys] at hp; cases hp
    · exact hmem
  exact (h.pairs x y hy).imp ((hsame x).even (hsame y)) (Or.imp hstruck hstruck)

/-- A round on a task outside the pair. -/
theorem pair_other (hr : Round S ok row w w') (h : Midway base agent (row :: rest) w)
    (hy : y ∈ w.db.partners x) (hxr : x ≠ row.id) (hyr : y ≠ row.id) :
    Even x y w'.db ∨ Struck x y rest w'.db ∨ Struck y x rest w'.db := by
  have hsame : ∀ {t}, t ≠ row.id → SameOutcome t w.db w'.db := by
    intro t ht
    rcases hr.writes with hdb | ⟨event, u, now, htask, hdb⟩
    · rw [hdb]; exact .refl
    · rw [hdb]; exact .recordSave_of_ne (by rw [htask]; exact ht.symm) ht
  have hstruck : ∀ {a b}, a ≠ row.id → b ≠ row.id → Struck a b (row :: rest) w.db →
      Struck a b rest w'.db := by
    rintro a b ha hb ⟨⟨e, he, hk⟩, ho, r, hmem, hid, hp⟩
    exact ⟨⟨e, (hsame ha).ended e he, hk⟩, (hsame hb).open ho, r,
      mem_rest hmem (by rw [hid]; exact hb), hid, hp⟩
  exact (h.pairs x y hy).imp ((hsame hxr).even (hsame hyr))
    (Or.imp (hstruck hxr hyr) (hstruck hyr hxr))

/-- A round of a cascade that strikes pairs on both sides. -/
theorem midway_round (hr : Round S StrikesBoth row w w')
    (hcur : Current agent (row :: rest) w.db) (h : Midway base agent (row :: rest) w) :
    Midway base agent rest w' := by
  have hc := hcur.row row List.mem_cons_self
  have hprog := hr.progresses hc.loaded
  have hended : ∀ {t e}, Ended t e w.db → Ended t e w'.db := by
    intro t e he
    have ht : t ≠ row.id := by
      rintro rfl
      exact not_ended_of_current hc he
    rcases hr.writes with hdb | ⟨event, u, now, htask, hdb⟩
    · rw [hdb]; exact he
    · rw [hdb]
      exact (SameOutcome.recordSave_of_ne (by rw [htask]; exact ht.symm) ht).ended e he
  refine ⟨h.family.progresses hprog, fun t e hp he => hended (h.frozen t e hp he), ?_, ?_⟩
  · intro x y hy
    replace hy := hprog.mem_partners_iff.mp hy
    cases hphys : row.physical with
    | false => exact pair_calm hr hphys hcur h hy
    | true =>
      by_cases hxr : x = row.id
      · subst hxr
        cases hr with
        | strike i now hp hok => exact pair_strike hcur h hy hok
        | requeue i now assign hno => rw [hphys] at hno; cases hno
        | disconnect now hno => rw [hphys] at hno; cases hno
        | skip hno => rw [hphys] at hno; cases hno
      by_cases hyr : y = row.id
      · subst hyr
        have hsymm : Even row.id x w'.db ∨ Struck row.id x rest w'.db ∨
            Struck x row.id rest w'.db := by
          cases hr with
          | strike i now hp hok => exact pair_strike hcur h (partner_symm hy) hok
          | requeue i now assign hno => rw [hphys] at hno; cases hno
          | disconnect now hno => rw [hphys] at hno; cases hno
          | skip hno => rw [hphys] at hno; cases hno
        exact hsymm.imp Even.symm Or.symm
      · exact pair_other hr h hy hxr hyr
  · exact fun t task' hg hd ha hp => before_round hr hc h.before hg hd ha hp

theorem kept_cascade (server : ServerId) (agent : AgentId) :
    Keeps (exec S) StrikesBoth (Kept base) (PersistBackend.orphanCascade server agent) := by
  rintro w ⟨htogether, hfrozen⟩
  refine PersistBackend.wp_orphanCascade (J := Midway base agent)
    (fun t task hg ha => ha ▸ htogether.family.agents t task hg)
    (fun i => ⟨htogether.family, hfrozen, fun x y hy => .inl (htogether.even x y hy), ?_⟩)
    (fun rows w id h => ⟨h.family, h.frozen, h.pairs, h.before⟩)
    (fun row rest w w' hcur h hr => midway_round hr hcur h)
    fun w h => ⟨⟨h.family, fun x y hy => ?_⟩, h.frozen⟩
  · intro t task hg hd ha _
    exact ⟨w.db.inFlightRow t task, mem_inFlight.mpr ⟨hg, ha, hd, rfl⟩, rfl⟩
  · rcases h.pairs x y hy with heven | hstruck | hstruck
    · exact heven
    · obtain ⟨row, hmem, _⟩ := hstruck.next
      cases hmem
    · obtain ⟨row, hmem, _⟩ := hstruck.next
      cases hmem

/-- Every handler of a connection, from its cascades. -/
theorem kept_connection {c : ConnectionCall} :
    Keeps (exec S) StrikesBoth (Kept base) (c.code S) := by
  have hquiet : ∀ {c : Stmt}, c.Quiet →
      Keeps (ε := Error) (L := Statements) (exec S) StrikesBoth (Kept base)
        (Prog.issue (L := Statements) c) := fun hc =>
    Keeps.issue fun i w _ h => kept_quiet hc h
  have hbuilt : PersistBackend.Built fun _ p => Keeps (exec S) StrikesBoth (Kept base) p := {
    Keeps.compositional with
    read := fun q => hquiet trivial
    timer := fun c => hquiet trivial
    send := fun connection m => Keeps.issue fun i w _ h => h
    caller := fun identity => hquiet trivial
    claim := fun agent connection session force => hquiet trivial
    revoke := fun agent => hquiet trivial
    cascade := kept_cascade }
  exact hbuilt.connectionCall (fun _ _ _ => hquiet trivial)
    fun _ _ _ _ => hbuilt.sweeps.onAgentDisconnected (hquiet trivial)

/-! ## Reports -/

/-- A terminal report that finds its task open is not about a wrapper, and if it is mirrored onto
a side of a pair, then it is about the child of that pair. A Yield is not mirrored onto a side
of a pair that has ended. -/
def ReportSound (r : Report) (db : Database) : Prop :=
  (r.kind.outcome.isSome = true → ∀ task ∈ db.tasks.get r.task, task.isDone = false →
    db.children r.task = [] ∧ ∀ target ∈ db.mirrorTarget r.task,
      db.partners target.1 = [] ∨ task.root = some target.1) ∧
  (r.kind.isYield = true → ∀ target ∈ db.mirrorTarget r.task,
    db.partners target.1 = [] ∨ (db.tasks.get target.1).any (!·.isDone) = true)

/-- The timer does not find a side of a pair open. -/
def SilentSound (id : TaskId) (db : Database) : Prop :=
  ∀ task ∈ db.tasks.get id, task.isDone = false → db.partners id = []

theorem kept_outside (h : Together db) (hp : db.Progresses db')
    (hs : ∀ t, db.partners t ≠ [] → SameOutcome t db db') : Together db' ∧ Frozen db db' := by
  refine ⟨⟨h.family.progresses hp, fun x y hy => ?_⟩, fun t e ht he => (hs t ht).ended e he⟩
  have hy := hp.mem_partners_iff.mp hy
  exact (hs x (List.ne_nil_of_mem hy)).even (hs y (List.ne_nil_of_mem (partner_symm hy)))
    (h.even x y hy)

theorem progresses_mirror {child : TaskId} {returns : Option (Dict Json)} :
    db.Progresses (db.mirror child kind returns message now) := by
  unfold Database.mirror
  split
  · rename_i parent impl htarget
    obtain ⟨_, row, _, _, _, hrow, _⟩ := unfoldSource_eq.mp (Database.mirrorTarget_eq.mp htarget).1
    exact .recordSave (by rw [PersistBackend.wrapperEvent, hrow]; rfl)
  · exact .refl

theorem sameOutcome_mirror {child : TaskId} {returns : Option (Dict Json)}
    (h : ∀ target ∈ db.mirrorTarget child, t ≠ target.1) :
    SameOutcome t db (db.mirror child kind returns message now) := by
  unfold Database.mirror
  split
  · rename_i parent impl htarget
    have hne : t ≠ parent := h _ htarget
    exact .recordSave_of_ne hne.symm hne
  · exact .refl

/-- The events of a child are mirrored onto its root. -/
theorem mirrorTarget_of_root {task : Task} (h : Family db) (hg : db.tasks.get x = some task)
    (hr : task.root = some t) : ∃ impl, db.mirrorTarget x = some (t, impl) := by
  obtain ⟨hparent, wrapper, hw, ⟨implId, impl, hid, himpl, hho⟩, _⟩ := h.child hg hr
  exact ⟨impl, Database.mirrorTarget_eq.mpr
    ⟨unfoldSource_eq.mpr ⟨task, wrapper, implId, hg, hparent, hw, hid, himpl⟩, hho⟩⟩

theorem partners_nil {task : Task} (hg : db.tasks.get x = some task)
    (hc : db.children x = []) (hr : task.root = none) : db.partners x = [] := by
  rw [Database.partners, hc, hg, Option.bind_some, hr]
  rfl

/-- The report that ends the child of a pair ends its wrapper with it. -/
theorem kept_childReport {task : Task} {now' : Time} (h : Together db)
    (hk : kind.isTerminal = true) (hg : db.tasks.get x = some task) (hd : task.isDone = false)
    (hc : db.children x = []) (hr : task.root = some t) :
    let after := (db.finish x kind message now).mirror x kind none message now'
    Together after ∧ Frozen db after := by
  intro after
  obtain ⟨impl, htarget⟩ := mirrorTarget_of_root h.family hg hr
  have hxt : t ∈ db.partners x := mem_partners.mpr (.inr (mem_children.mpr ⟨task, hg, hr⟩))
  have hne : t ≠ x := h.family.partner_ne hxt
  have hopen : Open x db ∧ Open t db := by
    cases h.even x t hxt with
    | «open» hx ht => exact ⟨hx, ht⟩
    | ended e e' hx =>
      obtain ⟨⟨task', hg', hd', _⟩, _⟩ := hx
      cases hg.symm.trans hg'
      rw [hd] at hd'
      cases hd'
  have htarget' : (db.finish x kind message now).mirrorTarget x = some (t, impl) :=
    Database.mirrorTarget_finish.trans htarget
  have hafter : after = ((db.finish x kind message now).record
      (PersistBackend.wrapperEvent impl.higherOrderConfig t x kind none message)).saveTask t
        { latestEventKind := some kind, done := kind.isTerminal } now' := by
    show Database.mirror _ _ _ _ _ _ = _
    rw [Database.mirror, htarget']
  have hprog : db.Progresses after :=
    (Database.Progresses.recordSave (by rw [hg]; rfl)).trans progresses_mirror
  have hother : ∀ {a}, a ≠ x → a ≠ t → SameOutcome a db after := by
    intro a hax hat
    rw [hafter]
    exact (SameOutcome.recordSave_of_ne hax.symm hax).trans (.recordSave_of_ne hat.symm hat)
  have hx : Ended x { task := x, kind := kind, message := message } after := by
    rw [hafter]
    exact (SameOutcome.recordSave_of_ne hne hne.symm).ended _
      (ended_close (e := { task := x, kind := kind, message := message }) hopen.1 hk rfl rfl)
  have ht : Ended t (PersistBackend.wrapperEvent impl.higherOrderConfig t x kind none message)
      after := by
    rw [hafter]
    exact ended_close (e := PersistBackend.wrapperEvent impl.higherOrderConfig t x kind none message)
      ((SameOutcome.recordSave_of_ne hne.symm hne).open hopen.2) hk hk rfl
  have hpartner : ∀ {a}, a ∈ db.partners x → a = t := by
    intro a ha
    rcases mem_partners.mp ha with ha | ha
    · rw [hc] at ha; cases ha
    · obtain ⟨task', hg', hr'⟩ := mem_children.mp ha
      cases hg.symm.trans hg'
      exact (Option.some.inj (hr.symm.trans hr')).symm
  have hpartner' : ∀ {a}, a ∈ db.partners t → a = x := by
    intro a ha
    rcases mem_partners.mp ha with ha | ha
    · exact h.family.unique ha (mem_children.mpr ⟨task, hg, hr⟩)
    · obtain ⟨wrapper, hw, hwr⟩ := mem_children.mp ha
      obtain ⟨wrapper', hw', _, hnone⟩ := (h.family.child hg hr).2
      cases hw.symm.trans hw'
      rw [hnone] at hwr
      cases hwr
  have heven : Even x t after := .ended _ _ hx ht rfl
  refine ⟨⟨h.family.progresses hprog, fun a b hb => ?_⟩, fun a e ha he => ?_⟩
  · replace hb := hprog.mem_partners_iff.mp hb
    by_cases hax : a = x
    · subst hax; rw [hpartner hb]; exact heven
    by_cases hat : a = t
    · subst hat; rw [hpartner' hb]; exact heven.symm
    by_cases hbx : b = x
    · subst hbx; exact absurd (hpartner (partner_symm hb)) hat
    by_cases hbt : b = t
    · subst hbt; exact absurd (hpartner' (partner_symm hb)) hax
    exact (hother hax hat).even (hother hbx hbt) (h.even a b hb)
  · have hnot : ∀ {c}, Open c db → a ≠ c := by
      rintro c ⟨⟨row, hrow, hrd⟩, _⟩ rfl
      obtain ⟨⟨row', hrow', hrd', _⟩, _⟩ := he
      cases hrow.symm.trans hrow'
      rw [hrd] at hrd'
      cases hrd'
    exact (hother (hnot hopen.1) (hnot hopen.2)).ended e he

/-- A report that ends a task outside all pairs, and is mirrored outside them. -/
theorem kept_otherReport {task : Task} {now' : Time} (h : Together db)
    (hg : db.tasks.get x = some task) (hx : db.partners x = [])
    (ht : ∀ target ∈ db.mirrorTarget x, db.partners target.1 = []) :
    let after := (db.finish x kind message now).mirror x kind none message now'
    Together after ∧ Frozen db after := by
  refine kept_outside h ((Database.Progresses.recordSave (by rw [hg]; rfl)).trans
    progresses_mirror) fun a ha => ?_
  have hax : a ≠ x := by rintro rfl; exact ha hx
  refine (SameOutcome.recordSave_of_ne hax.symm hax).trans (sameOutcome_mirror fun target hm => ?_)
  rintro rfl
  exact ha (ht target (Database.mirrorTarget_finish.symm.trans hm))

theorem kept_terminal {task : Task} {now' : Time} (h : Together db)
    (hk : kind.isTerminal = true) (hg : db.tasks.get x = some task) (hd : task.isDone = false)
    (hc : db.children x = [])
    (ht : ∀ target ∈ db.mirrorTarget x, db.partners target.1 = [] ∨ task.root = some target.1) :
    let after := (db.finish x kind message now).mirror x kind none message now'
    Together after ∧ Frozen db after := by
  cases hr : task.root with
  | some t => exact kept_childReport h hk hg hd hc hr
  | none =>
    refine kept_otherReport h hg (partners_nil hg hc hr) fun target hm => ?_
    rcases ht target hm with hp | hp
    · exact hp
    · rw [hr] at hp; cases hp

theorem kept_refl (h : Together db) : Together db ∧ Frozen db db := ⟨h, fun _ _ _ he => he⟩

theorem kept_report {r : Report} {now' : Time} (h : Together db) (hs : ReportSound r db) :
    Together (db.afterReport r now now') ∧ Frozen db (db.afterReport r now now') := by
  have hcalm : ∀ {e : TaskEvent}, e.kind.isTerminal = false → (db.tasks.get e.task).isSome = true →
      Together (db.record e) ∧ Frozen db (db.record e) := fun hk hthere =>
    kept_outside h (.record hthere) fun _ _ => .record (.inr hk)
  unfold Database.afterReport
  split
  · rename_i kind message ho
    refine Database.whenOpen_cases (fun db' => Together db' ∧ Frozen db db') (kept_refl h)
      fun task hg hd => ?_
    obtain ⟨hc, ht⟩ := hs.1 (by rw [ho]; rfl) task hg hd
    exact kept_terminal h (ReportKind.outcome_terminal ho) hg hd hc ht
  split
  · rename_i kind hconfirm
    refine Database.whenOpen_cases (fun db' => Together db' ∧ Frozen db db') (kept_refl h)
      fun task hg hd => ?_
    have hk : kind.isTerminal = false := by
      cases hr : r.kind <;> rw [hr] at hconfirm <;> cases hconfirm <;> rfl
    exact kept_outside h (.recordSave (by rw [hg]; rfl)) fun _ _ =>
      .recordSave hk rfl ⟨task, hg, hd⟩
  · cases hg : db.tasks.get r.task with
    | none => rw [Database.whenThere_of_missing hg]; exact kept_refl h
    | some task =>
      have hthere : (db.tasks.get r.task).isSome = true := by rw [hg]; rfl
      rw [Database.whenThere_of_there hthere]
      split
      · rename_i returns hyield
        refine kept_outside h ((Database.Progresses.record hthere).trans progresses_mirror)
          fun a ha => (SameOutcome.record
            (e := { task := r.task, kind := .yield, returns := returns }) (.inr rfl)).trans ?_
        unfold Database.mirror
        split
        · rename_i parent impl htarget
          rcases hs.2 (by rw [hyield]; rfl) (parent, impl) htarget with hp | hp
          · have hne : a ≠ parent := by rintro rfl; exact ha hp
            exact .recordSave_of_ne hne.symm hne
          · obtain ⟨row, hrow, hd⟩ := (Option.any_eq_true _ _).mp hp
            exact .recordSave rfl rfl ⟨row, hrow, by simpa using hd⟩
        · exact .refl
      · exact hcalm rfl hthere
      · exact hcalm rfl hthere
      · exact kept_refl h

theorem kept_silent (h : Together db) (hs : SilentSound id db) :
    let after := db.whenOpen id fun db => db.finish id kind message now
    Together after ∧ Frozen db after := by
  refine Database.whenOpen_cases (fun db' => Together db' ∧ Frozen db db') (kept_refl h)
    fun task hg hd => ?_
  refine kept_outside h (.recordSave (by rw [hg]; rfl)) fun a ha => ?_
  have hne : a ≠ id := by rintro rfl; exact ha (hs task hg hd)
  exact .recordSave_of_ne hne.symm hne

/-! ## Runs -/

/-- The call finishes no pair on one side only. -/
def Sound (S : Settings) (w : World) (c : Call) (i : Nat → Input) : Prop :=
  match c with
  | .connection c => Meets (exec S) StrikesBoth (c.code S) i w
  | .report (.report _ r) => ReportSound r w.db
  | .report (.silent id) => SilentSound id w.db
  | .agent _ | .postman _ => True

instance (c : Call) (i : Nat → Input) : Decidable (Sound S w c i) :=
  match c with
  | .connection c => inferInstanceAs (Decidable (Meets (exec S) StrikesBoth (c.code S) i w))
  | .report (.report _ r) => inferInstanceAs (Decidable (
      (r.kind.outcome.isSome = true → ∀ task ∈ w.db.tasks.get r.task, task.isDone = false →
        w.db.children r.task = [] ∧ ∀ target ∈ w.db.mirrorTarget r.task,
          w.db.partners target.1 = [] ∨ task.root = some target.1) ∧
      (r.kind.isYield = true → ∀ target ∈ w.db.mirrorTarget r.task,
        w.db.partners target.1 = [] ∨ (w.db.tasks.get target.1).any (!·.isDone) = true)))
  | .report (.silent id) => inferInstanceAs (Decidable (
      ∀ task ∈ w.db.tasks.get id, task.isDone = false → w.db.partners id = []))
  | .agent _ => .isTrue trivial
  | .postman _ => .isTrue trivial

/-- Every call of the run is sound in the world it is handled in. -/
def SoundRun (S : Settings) : World → List (Call × (Nat → Input)) → Prop
  | _, [] => True
  | w, (c, i) :: calls => Sound S w c i ∧ SoundRun S (runAlone S (c.code S) i w) calls

theorem kept_call {c : Call} {i : Nat → Input} (h : Together w.db) (hs : Sound S w c i) :
    Kept w.db (runAlone S (c.code S) i w) := by
  have hkept : Kept w.db w := kept_refl h
  cases c with
  | connection c => exact kept_connection.run hkept hs
  | agent c =>
    have hkeeps : Keeps (exec S) anyStep (Kept w.db) c.code := kept_takesWork.quiet_keeps c.issues
    exact hkeeps.run hkept meets_any
  | postman c =>
    have hkeeps : Keeps (exec S) anyStep (Kept w.db) (c.code S) := kept_takesWork.postmanCall
    exact hkeeps.run hkept meets_any
  | report c =>
    cases c with
    | report server r =>
      obtain ⟨now, now', hdb⟩ := Resend.report_db S w server r i
      have hcall : (runAlone S ((Call.report (.report server r)).code S) i w).db = _ := hdb
      unfold Kept
      rw [hcall]
      exact kept_report h hs
    | silent id =>
      obtain ⟨now, hdb⟩ := Resend.silent_db S w id i
      have hcall : (runAlone S ((Call.report (.silent id)).code S) i w).db = _ := hdb
      unfold Kept
      rw [hcall]
      exact kept_silent h hs

/-- The claim on a run from `w`: in every state reached every pair is even, and a wrapper that is
done keeps its kind and its terminal event. -/
structure FateShared (S : Settings) (w : World) (calls : List (Call × (Nat → Input))) : Prop where
  even : ∀ before after, calls = before ++ after → ∀ t c,
    let db := (runAll S (Call.code S) w before).db
    c ∈ db.children t → Even t c db
  frozen : ∀ before after, calls = before ++ after → ∀ t c e,
    let db := (runAll S (Call.code S) w before).db
    c ∈ db.children t → Ended t e db → Ended t e (runAll S (Call.code S) w calls).db

/-- No task was assigned yet. -/
structure Unused (db : Database) : Prop where
  tasks : ∀ t, db.tasks.get t = none
  events : db.events = []

theorem together_unused (h : Unused db) : Together db := by
  have hnone : ∀ {c t}, c ∉ db.children t := by
    intro c t hc
    obtain ⟨child, hg, _⟩ := mem_children.mp hc
    rw [h.tasks] at hg
    cases hg
  refine ⟨⟨fun e he => ?_, fun t task hg => ?_, fun hg _ => ?_, fun hc _ => absurd hc hnone⟩,
    fun x y hy => ((mem_partners.mp hy).elim hnone hnone).elim⟩
  · rw [h.events] at he; cases he
  · rw [h.tasks] at hg; cases hg
  · rw [h.tasks] at hg; cases hg

theorem together_run {calls : List (Call × (Nat → Input))} (h : Together w.db)
    (hs : SoundRun S w calls) : Together (runAll S (Call.code S) w calls).db := by
  induction calls generalizing w with
  | nil => exact h
  | cons c calls ih => exact ih (kept_call h hs.1).1 hs.2

theorem soundRun_append {before after : List (Call × (Nat → Input))} :
    SoundRun S w (before ++ after) ↔
      SoundRun S w before ∧ SoundRun S (runAll S (Call.code S) w before) after := by
  induction before generalizing w with
  | nil => exact ⟨fun h => ⟨trivial, h⟩, And.right⟩
  | cons c before ih =>
    exact (and_congr_right fun _ => ih).trans and_assoc.symm

/-- What ended in a pair stays as it ended. -/
theorem ended_run {calls : List (Call × (Nat → Input))} {c : TaskId} {e : TaskEvent}
    (h : Together w.db) (hs : SoundRun S w calls) (hc : c ∈ w.db.children t)
    (he : Ended t e w.db) : Ended t e (runAll S (Call.code S) w calls).db := by
  induction calls generalizing w with
  | nil => exact he
  | cons call calls ih =>
    obtain ⟨htogether, hfrozen⟩ := kept_call h hs.1
    refine ih htogether hs.2 ?_
      (hfrozen t e (List.ne_nil_of_mem (mem_partners.mpr (.inl hc))) he)
    obtain ⟨child, hg, hr⟩ := mem_children.mp hc
    obtain ⟨child', hg', hev⟩ := (runAlone_evolves _ _ _).tasks hg
    exact mem_children.mpr ⟨child', hg', by rw [hev.root_eq, hr]⟩

/-- **A wrapper's fate is its child's fate** in every run of sound calls. -/
theorem fate_shared (S : Settings) (w : World) (calls : List (Call × (Nat → Input)))
    (hw : Unused w.db) (hs : SoundRun S w calls) : FateShared S w calls := by
  have hreach : ∀ before after, calls = before ++ after →
      Together (runAll S (Call.code S) w before).db ∧
        SoundRun S (runAll S (Call.code S) w before) after := by
    rintro before after rfl
    obtain ⟨hbefore, hafter⟩ := soundRun_append.mp hs
    exact ⟨together_run (together_unused hw) hbefore, hafter⟩
  refine ⟨?_, ?_⟩
  · intro before after hcalls t c db hc
    exact (hreach before after hcalls).1.even t c (mem_partners.mpr (.inl hc))
  · intro before after hcalls t c e db hc he
    obtain ⟨htogether, hafter⟩ := hreach before after hcalls
    rw [hcalls, runAll_append]
    exact ended_run htogether hafter hc he

section Cascaded

/-- Agent 1, live at time 0, with implementation 1 and implementation 2 wrapped around it. -/
def pairWorld (higher lower : EffectClass) : World :=
  let user : User := ⟨1, "user"⟩
  let client : Client := ⟨1, "client"⟩
  let organization : Organization := ⟨1, "org"⟩
  { db := {
      agents := Table.empty.insert {
        name := "agent", app := "app", release := "1", hash := "hash"
        connected := true, lastSeen := some 0
        user := user, client := client, organization := organization }
      actions := Table.empty.insert { key := "act", hash := "hash", organization := organization }
      implementations := (Table.empty.insert
        { interface := "act", action := 1, agent := 1, effect := lower }).insert
        { interface := "wrap", action := 1, agent := 1, higherOrderFor := some 1
          effect := higher } } }

def context : CallerContext where
  user := ⟨1, "user"⟩
  client := some ⟨1, "client"⟩
  organization := some ⟨1, "org"⟩

/-- An assign to the higher-order implementation while the agent is live, and a grace timer that
fires when it no longer is. -/
def assignAndExpire : List (Call × (Nat → Input)) :=
  [(.postman (.assign context { implementation := some 2 }), fun _ => {}),
    (.connection (.graceExpired 0 1), fun _ => { now := 100 })]

theorem unused_pairWorld {higher lower : EffectClass} : Unused (pairWorld higher lower).db :=
  ⟨fun _ => rfl, rfl⟩

theorem fate_shared_physical : FateShared {} (pairWorld .physical .physical) assignAndExpire :=
  fate_shared {} (pairWorld .physical .physical) assignAndExpire unused_pairWorld
    ⟨trivial, by decide +kernel, trivial⟩

/-- A physical child of a wrapper that is not physical: the cascade strikes the child down, and
the wrapper stays open. -/
theorem cascade_strikes_child_only : ¬ FateShared {} (pairWorld .none .physical) assignAndExpire := by
  intro h
  have hwrapper : ((runAll {} (Call.code {}) (pairWorld .none .physical)
      assignAndExpire).db.tasks.get 1).map (·.isDone) = some false := by decide +kernel
  have hchild : ((runAll {} (Call.code {}) (pairWorld .none .physical)
      assignAndExpire).db.tasks.get 2).map (·.isDone) = some true := by decide +kernel
  have hpair : 2 ∈ (runAll {} (Call.code {}) (pairWorld .none .physical)
      assignAndExpire).db.children 1 := by decide +kernel
  cases h.even assignAndExpire [] rfl 1 2 hpair with
  | «open» hx hy =>
    obtain ⟨⟨task, hg, hd⟩, _⟩ := hy
    rw [hg, Option.map_some, hd] at hchild
    cases hchild
  | ended e e' hx =>
    obtain ⟨⟨task, hg, hd, _⟩, _⟩ := hx
    rw [hg, Option.map_some, hd] at hwrapper
    cases hwrapper

end Cascaded

end Fate
end Rekuest
