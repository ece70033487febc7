import Rekuest.Tasks.Assign

/-!
# Rekuest.Tasks.Family

Wrappers and their children, and what holds of every database that the server can reach.

* `Database.children`: the child that `_assign_higher_order` made for a wrapper.
  `Database.partners`: the other side of a task, as wrapper or as child.
* `Database.Progresses`: the later database has no new tasks. Every quiet statement progresses.
* `InHand`: a task is work in flight of an agent.
* `Family`: events and agents are there, a child's root is its parent and a virtual wrapper, and
  a wrapper has one child.
-/

namespace Rekuest

open Interleave Interleave.Prog

/-! ## Pairs -/

/-- The tasks whose root is the given one. -/
def Database.children (db : Database) (t : TaskId) : List TaskId :=
  (db.tasks.select fun _ task => task.root = some t).map (·.1)

/-- The other side of a task: its children, or its root. -/
def Database.partners (db : Database) (t : TaskId) : List TaskId :=
  db.children t ++ ((db.tasks.get t).bind (·.root)).toList

variable {S : Settings} {ok : Input → Stmt → World → Prop} {w : World} {db db' db'' : Database}
  {t id x y c : TaskId} {kind : TaskEventKind} {message : Option EventText} {now : Time}
  {e : TaskEvent} {u : TaskUpdate}

theorem mem_children : c ∈ db.children t ↔
    ∃ child, db.tasks.get c = some child ∧ child.root = some t := by
  constructor
  · intro h
    obtain ⟨⟨k, child⟩, hmem, rfl⟩ := List.mem_map.mp h
    obtain ⟨hg, hr⟩ := Table.mem_select.mp hmem
    exact ⟨child, hg, of_decide_eq_true hr⟩
  · rintro ⟨child, hg, hr⟩
    exact List.mem_map.mpr ⟨(c, child), Table.mem_select.mpr ⟨hg, decide_eq_true hr⟩, rfl⟩

theorem mem_partners : y ∈ db.partners x ↔ y ∈ db.children x ∨ x ∈ db.children y := by
  rw [Database.partners, List.mem_append, Option.mem_toList,
    mem_children (t := y), Option.bind_eq_some_iff]

theorem partner_symm (h : y ∈ db.partners x) : x ∈ db.partners y :=
  mem_partners.mpr (mem_partners.mp h).symm

/-! ## Databases without new tasks -/

/-- The later database has no new tasks, and its new events are on tasks that are there. -/
structure Database.Progresses (db db' : Database) : Prop extends db.Evolves db' where
  old : ∀ {t task'}, db'.tasks.get t = some task' → (db.tasks.get t).isSome = true
  agents : ∀ {a}, (db.agents.get a).isSome = true → (db'.agents.get a).isSome = true
  events : ∀ e ∈ db'.events, e ∈ db.events ∨ (db.tasks.get e.task).isSome = true

namespace Database.Progresses

theorem refl : db.Progresses db where
  toEvolves := .refl
  old h := by rw [h]; rfl
  agents h := h
  events _ h := .inl h

theorem trans (h : db.Progresses db') (h' : db'.Progresses db'') : db.Progresses db'' where
  toEvolves := h.toEvolves.trans h'.toEvolves
  old hg := by
    obtain ⟨task, htask⟩ := Option.isSome_iff_exists.mp (h'.old hg)
    exact h.old htask
  agents ha := h'.agents (h.agents ha)
  events e he := by
    rcases h'.events e he with hmem | hthere
    · exact h.events e hmem
    · obtain ⟨task, htask⟩ := Option.isSome_iff_exists.mp hthere
      exact .inr (h.old htask)

theorem record (hthere : (db.tasks.get e.task).isSome = true) : db.Progresses (db.record e) where
  toEvolves := Database.evolves_record
  old h := by rw [show db.tasks.get _ = _ from h]; rfl
  agents h := h
  events e' h := by
    rcases List.mem_append.mp h with h | h
    · exact .inl h
    · rw [List.mem_singleton.mp h]; exact .inr hthere

theorem saveTask : db.Progresses (db.saveTask id u now) where
  toEvolves := Database.evolves_saveTask
  old {t task'} h := by
    rw [Database.get_saveTask] at h
    split at h
    · obtain ⟨task, hg, _⟩ := Option.map_eq_some_iff.mp h
      rw [hg]; rfl
    · rw [h]; rfl
  agents h := h
  events e h := .inl h

theorem recordSave (hthere : (db.tasks.get e.task).isSome = true) :
    db.Progresses ((db.record e).saveTask id u now) :=
  (record hthere).trans saveTask

theorem mem_children_iff (h : db.Progresses db') : c ∈ db'.children t ↔ c ∈ db.children t := by
  rw [mem_children, mem_children]
  constructor
  · rintro ⟨child', hg', hr⟩
    obtain ⟨child, hg⟩ := Option.isSome_iff_exists.mp (h.old hg')
    obtain ⟨child'', hg'', he⟩ := h.tasks hg
    cases hg'.symm.trans hg''
    exact ⟨child, hg, by rw [← he.root_eq, hr]⟩
  · rintro ⟨child, hg, hr⟩
    obtain ⟨child', hg', he⟩ := h.tasks hg
    exact ⟨child', hg', by rw [he.root_eq, hr]⟩

theorem mem_partners_iff (h : db.Progresses db') : y ∈ db'.partners x ↔ y ∈ db.partners x := by
  rw [mem_partners, mem_partners, h.mem_children_iff, h.mem_children_iff]

end Database.Progresses

theorem isWrapper_evolves {task task' : Task} (hev : db.Evolves db') (he : task.Evolves task') :
    db'.IsWrapper task' ↔ db.IsWrapper task := by
  unfold Database.IsWrapper
  rw [he.implementation_eq, hev.implementations]

theorem virtual_evolves {task task' : Task} (hev : db.Evolves db') (he : task.Evolves task') :
    db'.Virtual task' ↔ db.Virtual task := by
  unfold Database.Virtual
  rw [isWrapper_evolves hev he, he.root_eq]

/-- Every quiet statement. -/
theorem progresses_exec {i : Input} {c : Stmt} (hc : c.Quiet) :
    w.db.Progresses (exec S i c w).2.db := by
  by_cases htask : ∃ s, c = .task s
  · obtain ⟨s, rfl⟩ := htask
    rw [exec_task_db]
    cases s with
    | create row => exact hc.elim
    | createEvent event =>
      rw [createEvent_exec]
      split
      · rename_i hthere
        exact .record hthere
      · exact .refl
    | save id u => exact .saveTask
    | claimTransition id toKind markDone skip => exact hc.elim
  · obtain ⟨htasks, hevents⟩ := exec_not_task (S := S) (i := i) (w := w)
      fun s hs => htask ⟨s, hs⟩
    refine ⟨exec_evolves, fun h => ?_, exec_agents_there, fun e he => .inl (hevents ▸ he)⟩
    rw [htasks] at h
    rw [h]
    rfl

theorem mem_children_withTask {row : Task} : c ∈ (w.withTask row).db.children t ↔
    (c = w.db.tasks.next ∧ row.root = some t) ∨ c ∈ w.db.children t := by
  rw [mem_children, mem_children]
  constructor
  · rintro ⟨child, hg, hr⟩
    rcases Table.get_insert_cases hg with ⟨hnext, rfl⟩ | ⟨_, hold⟩
    · exact .inl ⟨hnext, hr⟩
    · exact .inr ⟨child, hold, hr⟩
  · rintro (⟨rfl, hr⟩ | ⟨child, hg, hr⟩)
    · exact ⟨row, Table.get_insert_next, hr⟩
    · exact ⟨child, Table.get_insert_of_get hg, hr⟩

theorem Round.progresses {row : InFlight} {w' : World} (h : Round S ok row w w')
    (hg : w.db.tasks.get row.id = some row.task) : w.db.Progresses w'.db := by
  rcases h.writes with hdb | ⟨event, u, now, htask, hdb⟩
  · rw [hdb]; exact .refl
  · rw [hdb]; exact .recordSave (by rw [htask, hg]; rfl)

theorem isPhysical_evolves {task task' : Task} (hev : db.Evolves db') (he : task.Evolves task') :
    db'.isPhysical task' = db.isPhysical task := by
  unfold Database.isPhysical
  rw [he.implementation_eq, hev.implementations]

/-- The task is work in flight of the agent. -/
structure InHand (a : AgentId) (db : Database) (t : TaskId) (task : Task) : Prop where
  stored : db.tasks.get t = some task
  agent : task.agent = a
  «open» : task.isDone = false

/-- What is in flight later was in flight before. -/
theorem InHand.of_progresses {a : AgentId} {task' : Task} (hp : db.Progresses db')
    (hg : db'.tasks.get t = some task') (ha : task'.agent = a) (hd : task'.isDone = false) :
    ∃ task, InHand a db t task ∧ task.Evolves task' := by
  obtain ⟨task, hg₀⟩ := Option.isSome_iff_exists.mp (hp.old hg)
  obtain ⟨task'', hg'', he⟩ := hp.tasks hg₀
  cases hg.symm.trans hg''
  refine ⟨task, ⟨hg₀, by rw [← he.agent_eq, ha], ?_⟩, he⟩
  cases hopen : task.isDone with
  | false => rfl
  | true => rw [he.done hopen] at hd; cases hd

/-- A row of another agent's cascade is another task. -/
theorem InHand.ne_row {a b : AgentId} {row : InFlight} {task : Task} (ht : InHand a db t task)
    (hp : db.Progresses db') (hc : row.Current b db') (hb : b ≠ a) : t ≠ row.id := by
  rintro rfl
  obtain ⟨task', hg', he⟩ := hp.tasks ht.stored
  cases hc.loaded.symm.trans hg'
  exact hb (by rw [← hc.ofAgent, he.agent_eq, ht.agent])

/-! ## Families -/

structure Family (db : Database) : Prop where
  events : ∀ e ∈ db.events, (db.tasks.get e.task).isSome = true
  agents : db.AgentsThere
  child : ∀ {c t child}, db.tasks.get c = some child → child.root = some t →
    child.parent = some t ∧ ∃ wrapper, db.tasks.get t = some wrapper ∧ db.Virtual wrapper
  unique : ∀ {c d t}, c ∈ db.children t → d ∈ db.children t → c = d

namespace Family

theorem children_ne (h : Family db) (hc : c ∈ db.children t) : c ≠ t := by
  rintro rfl
  obtain ⟨child, hg, hr⟩ := mem_children.mp hc
  obtain ⟨wrapper, hw, _, hroot⟩ := (h.child hg hr).2
  cases hg.symm.trans hw
  rw [hr] at hroot
  cases hroot

theorem partner_ne (h : Family db) (hy : y ∈ db.partners x) : y ≠ x := by
  rcases mem_partners.mp hy with hc | hc
  · exact h.children_ne hc
  · exact (h.children_ne hc).symm

theorem progresses (h : Family db) (hp : db.Progresses db') : Family db' where
  events e he := by
    rcases hp.events e he with hmem | hthere
    · obtain ⟨task, hg⟩ := Option.isSome_iff_exists.mp (h.events e hmem)
      obtain ⟨task', hg', _⟩ := hp.tasks hg
      rw [hg']; rfl
    · obtain ⟨task, hg⟩ := Option.isSome_iff_exists.mp hthere
      obtain ⟨task', hg', _⟩ := hp.tasks hg
      rw [hg']; rfl
  agents t task' hg' := by
    obtain ⟨task, hg⟩ := Option.isSome_iff_exists.mp (hp.old hg')
    obtain ⟨task'', hg'', he⟩ := hp.tasks hg
    cases hg'.symm.trans hg''
    rw [he.agent_eq]
    exact hp.agents (h.agents t task hg)
  child {c t child'} hg' hr := by
    obtain ⟨child, hg⟩ := Option.isSome_iff_exists.mp (hp.old hg')
    obtain ⟨child'', hg'', he⟩ := hp.tasks hg
    cases hg'.symm.trans hg''
    obtain ⟨hparent, wrapper, hw, hv⟩ := h.child hg (he.root_eq ▸ hr)
    obtain ⟨wrapper', hw', hew⟩ := hp.tasks hw
    exact ⟨by rw [he.parent_eq, hparent], wrapper', hw', (virtual_evolves hp.toEvolves hew).mpr hv⟩
  unique hc hd := h.unique (hp.mem_children_iff.mp hc) (hp.mem_children_iff.mp hd)

/-- A task comes in: as nobody's child, or as the first child of a virtual wrapper. -/
theorem withTask {row : Task} (h : Family w.db) (hadmits : w.db.admits row = true)
    (hchild : ∀ t, row.root = some t → row.parent = some t ∧
      (∃ wrapper, w.db.tasks.get t = some wrapper ∧ w.db.Virtual wrapper) ∧
      ∀ c, c ∉ w.db.children t) : Family (w.withTask row).db where
  events e he := by
    obtain ⟨task, hg⟩ := Option.isSome_iff_exists.mp (h.events e he)
    rw [show (w.withTask row).db.tasks.get e.task = _ from Table.get_insert_of_get hg]
    rfl
  agents t task hg := by
    rcases Table.get_insert_cases hg with ⟨_, rfl⟩ | ⟨_, hold⟩
    · simp only [Database.admits, Bool.and_eq_true] at hadmits
      exact hadmits.1.1.1.2
    · exact h.agents t task hold
  child {c t child} hg hr := by
    rcases Table.get_insert_cases hg with ⟨_, rfl⟩ | ⟨_, hold⟩
    · obtain ⟨hparent, ⟨wrapper, hw, hv⟩, _⟩ := hchild t hr
      exact ⟨hparent, wrapper, Table.get_insert_of_get hw, hv⟩
    · obtain ⟨hparent, wrapper, hw, hv⟩ := h.child hold hr
      exact ⟨hparent, wrapper, Table.get_insert_of_get hw, hv⟩
  unique {c d t} hc hd := by
    rcases mem_children_withTask.mp hc with ⟨hcn, hr⟩ | hc <;>
      rcases mem_children_withTask.mp hd with ⟨hdn, hr'⟩ | hd
    · rw [hcn, hdn]
    · exact absurd hd ((hchild t hr).2.2 d)
    · exact absurd hc ((hchild t hr').2.2 c)
    · exact h.unique hc hd

/-- A new wrapper has no children. -/
theorem children_withTask {row : Task} (h : Family w.db) (hroot : row.root = none) (c : TaskId) :
    c ∉ (w.withTask row).db.children w.db.tasks.next := by
  intro hc
  rcases mem_children_withTask.mp hc with ⟨_, hr⟩ | hold
  · rw [hroot] at hr
    cases hr
  · obtain ⟨child, hg, hr⟩ := mem_children.mp hold
    obtain ⟨_, wrapper, hw, _⟩ := h.child hg hr
    rw [Table.get_next] at hw
    cases hw

theorem withRoot {row : Task} (h : Family w.db) (hadmits : w.db.admits row = true)
    (hroot : row.root = none) : Family (w.withTask row).db :=
  h.withTask hadmits fun t hr => by rw [hroot] at hr; cases hr

theorem withPair {wrapper child : Task} (h : Family w.db) (hwrapper : w.db.admits wrapper = true)
    (hroot : wrapper.root = none) (hw : w.db.IsWrapper wrapper)
    (hparent : child.parent = some w.db.tasks.next) (hr : child.root = some w.db.tasks.next)
    (hchild : (w.withTask wrapper).db.admits child = true) :
    Family ((w.withTask wrapper).withTask child).db := by
  refine (h.withRoot hwrapper hroot).withTask hchild fun t ht => ?_
  cases hr.symm.trans ht
  exact ⟨hparent, ⟨wrapper, Table.get_insert_next, hw, hroot⟩, h.children_withTask hroot⟩

end Family
end Rekuest
