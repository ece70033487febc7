import Rekuest.Tasks.Requeue

/-!
# Rekuest.Tasks.Control

What a control request makes of the world when it runs alone.

* `World.controlled`: the world after one target was told.
* `wp_requestControl`: the request tells its targets one after the other.
* `mailOf`: the instructions about a task that were pushed or posted.
* `Spared`, `Marked`: what telling the targets does to a task that is none, and to one that is.
* `Mailed`: what was handed to the transports since.
-/

namespace Rekuest

open Interleave Interleave.Prog

/-- The world after one target of a control request was told. -/
def World.controlled (op : Backend.ControlOp) (w : World) (target : TaskId × Task) : World :=
  World.delivered { w with
    db := (w.db.saveTask target.1 { latestInstructKind := some op.instructKind } 0).record
      { task := target.1, kind := op.ingKind } } target.2.agent (op.toAgent target.1)

/-- The tasks that a control request is about. -/
def Database.targets (op : Backend.ControlOp) (i : Input) (id : TaskId) (task : Task)
    (db : Database) : List (TaskId × Task) :=
  (id, task) :: if op.propagates then db.tasks.selectBy i.rank fun _ task =>
    task.root = some id && !task.isDone else []

namespace Control

open Backend (ControlOp)
open Requeue (addressable)

variable {S : Settings} {ok : Input → Stmt → World → Prop} {w w' w'' : World} {t id : TaskId}
  {op : ControlOp} {target : TaskId × Task} {targets : List (TaskId × Task)} {a : AgentId}
  {m : ToAgentMessage}

/-! ## The request -/

@[simp] theorem controlled_agents : (w.controlled op target).db.agents = w.db.agents := by
  rw [World.controlled, World.delivered_db]
  rfl

/-- The save of a column other than `is_done` is no matter of the clock. -/
theorem saveTask_instruct {db : Database} {kind : TaskInstructKind} {now : Time} :
    db.saveTask id { latestInstructKind := some kind } now =
      db.saveTask id { latestInstructKind := some kind } 0 := by
  simp only [Database.saveTask]
  rfl

theorem wp_controlTarget {Q : Except Error Unit → World → Prop}
    (hthere : (w.db.tasks.get target.1).isSome = true)
    (hagent : (w.db.agents.get target.2.agent).isSome = true)
    (h : Q (.ok ()) (w.controlled op target)) :
    wp (exec S) ok (Backend.controlTarget op target) Q w := by
  refine wp_bind.mpr (wp_saveTask fun now => ?_)
  rw [saveTask_instruct]
  refine wp_bind.mpr (wp_createEvent ?_ (wp_broadcast hagent h))
  show ((w.db.saveTask target.1 _ 0).tasks.get target.1).isSome = true
  rw [Database.get_saveTask_self, Option.isSome_map]
  exact hthere

theorem tasks_controlled : (w.controlled op target).db.tasks.get t =
    if t = target.1 then (w.db.tasks.get t).map fun task =>
      { task with latestInstructKind := op.instructKind } else w.db.tasks.get t := by
  rw [World.controlled, World.delivered_db, Database.record_tasks, Database.get_saveTask]
  split
  · congr 1
    funext task
    simp [TaskUpdate.apply]
  · rfl

theorem wp_controlTargets {Q : Except Error Unit → World → Prop}
    (hthere : ∀ x ∈ targets, (w.db.tasks.get x.1).isSome = true)
    (hagents : ∀ x ∈ targets, (w.db.agents.get x.2.agent).isSome = true)
    (h : Q (.ok ()) (targets.foldl (World.controlled op) w)) :
    wp (exec S) ok (Prog.forEach (Backend.controlTarget op) targets) Q w := by
  induction targets generalizing w with
  | nil => exact h
  | cons x targets ih =>
    refine wp_bind.mpr (wp_controlTarget (hthere x List.mem_cons_self)
      (hagents x List.mem_cons_self) (ih (fun y hy => ?_) (fun y hy => ?_) h))
    · have hy := hthere y (List.mem_cons_of_mem _ hy)
      rw [tasks_controlled]
      split <;> simp [hy]
    · rw [controlled_agents]
      exact hagents y (List.mem_cons_of_mem _ hy)

/-- **The request** tells its targets, in the order in which it found them. -/
theorem wp_requestControl {task : Task} {Q : Except Error TaskId → World → Prop}
    (hlinked : w.db.Linked) (hg : w.db.tasks.get id = some task) (hd : task.isDone = false)
    (h : ∀ i, Q (.ok id) ((w.db.targets op i id task).foldl (World.controlled op) w)) :
    wp (exec S) ok (Backend.requestControl op id) Q w := by
  have htell : ∀ i, wp (exec S) ok ((Prog.forEach (Backend.controlTarget op)
      (w.db.targets op i id task)).bind fun _ => .ret id) Q w := by
    intro i
    have hrow : ∀ x ∈ w.db.targets op i id task, w.db.tasks.get x.1 = some x.2 := by
      intro x hx
      obtain hx | hx := List.mem_cons.mp hx
      · rw [hx, hg]
      · split at hx
        · exact (Table.mem_selectBy.mp hx).1
        · cases hx
    refine wp_bind.mpr (wp_controlTargets (fun x hx => ?_) (fun x hx => ?_) (h i))
    · rw [hrow x hx]
      rfl
    · exact hlinked.agent (hrow x hx)
  refine wp_bind.mpr (wp_ask fun i => ?_)
  dsimp only [after, Query.eval]
  simp only [hg, orDoesNotExist, bind_eq, ret_bind, hd, Bool.false_eq_true, if_false]
  unfold Database.targets at htell
  cases hp : op.propagates with
  | false =>
    simp only [hp, Bool.false_eq_true, if_false] at htell ⊢
    exact htell default
  | true =>
    simp only [hp, if_true] at htell ⊢
    exact wp_bind.mpr (wp_ask fun j => htell j)

/-! ## What the targets see of it -/

/-- The instructions about a task that were pushed or posted. -/
def mailOf (t : TaskId) (w : World) : List (AgentId × ToAgentMessage) :=
  (w.pushed ++ w.posted).filter fun m => m.2.about? = some t

theorem about_toAgent : (op.toAgent t).about? = some t := by
  cases op <;> rfl

theorem mailOf_delivered (h : m.about? ≠ some t) : mailOf t (w.delivered a m) = mailOf t w := by
  unfold World.delivered mailOf
  split
  · rfl
  split
  · simp [h]
  · split
    · simp [h]
    · rfl

theorem mailOf_delivered_self (h : m.about? = some t) (ha : addressable a w = true) :
    (mailOf t (w.delivered a m)).Perm ((a, m) :: mailOf t w) := by
  unfold addressable at ha
  unfold World.delivered mailOf
  cases hg : w.db.agents.get a with
  | none =>
    rw [hg] at ha
    cases ha
  | some row =>
    rw [hg, Option.any_some] at ha
    dsimp only
    cases hk : row.kind with
    | websocket => simp [h]
    | webhook =>
      have hurl : row.hookUrl.any (· != "") = true := by simpa [hk] using ha
      simp only [hurl, if_true, List.filter_append, List.filter_singleton, h, decide_true,
        cond_true, ← List.append_assoc]
      exact List.perm_append_singleton _ _

/-- Nothing is sent to an agent without an address. -/
theorem delivered_of_not_addressable (ha : addressable a w = false) : w.delivered a m = w := by
  unfold addressable at ha
  unfold World.delivered
  cases hg : w.db.agents.get a with
  | none => rfl
  | some row =>
    rw [hg, Option.any_some, Bool.or_eq_false_iff] at ha
    dsimp only
    cases hk : row.kind with
    | websocket => simp [hk] at ha
    | webhook => simp [ha.2]

/-- Nothing of the task is touched. -/
structure Spared (t : TaskId) (w w' : World) : Prop where
  row : w'.db.tasks.get t = w.db.tasks.get t
  events : w'.db.eventsOf t = w.db.eventsOf t
  mail : mailOf t w' = mailOf t w

/-- The task is marked, once, and its agent told, once, where it has an address. -/
structure Marked (op : ControlOp) (t : TaskId) (a : AgentId) (w w' : World) : Prop where
  row : w'.db.tasks.get t = (w.db.tasks.get t).map fun task =>
    { task with latestInstructKind := op.instructKind }
  events : w'.db.eventsOf t = w.db.eventsOf t ++ [{ task := t, kind := op.ingKind }]
  mail : (mailOf t w').Perm
    (if addressable a w then (a, op.toAgent t) :: mailOf t w else mailOf t w)

theorem Spared.refl : Spared t w w := ⟨rfl, rfl, rfl⟩

theorem Spared.trans (h : Spared t w w') (h' : Spared t w' w'') : Spared t w w'' :=
  ⟨h'.row.trans h.row, h'.events.trans h.events, h'.mail.trans h.mail⟩

theorem eventsOf_controlled : (w.controlled op target).db.eventsOf t =
    w.db.eventsOf t ++ if target.1 = t then [{ task := target.1, kind := op.ingKind }] else [] := by
  rw [World.controlled, World.delivered_db]
  exact eventsOf_append

theorem spared_controlled (h : t ≠ target.1) : Spared t w (w.controlled op target) where
  row := by rw [tasks_controlled, if_neg h]
  events := by rw [eventsOf_controlled, if_neg (Ne.symm h), List.append_nil]
  mail := by
    rw [World.controlled, mailOf_delivered]
    · rfl
    · rw [about_toAgent]
      intro heq
      exact h (Option.some.inj heq).symm

theorem marked_controlled : Marked op target.1 target.2.agent w (w.controlled op target) where
  row := by rw [tasks_controlled, if_pos rfl]
  events := by rw [eventsOf_controlled, if_pos rfl]
  mail := by
    unfold World.controlled
    split
    · rename_i ha
      exact mailOf_delivered_self about_toAgent ha
    · rename_i ha
      have hmute : addressable target.2.agent { w with
          db := (w.db.saveTask target.1 { latestInstructKind := some op.instructKind } 0).record
            { task := target.1, kind := op.ingKind } } = false := Bool.eq_false_of_not_eq_true ha
      rw [delivered_of_not_addressable hmute]
      exact .refl _

theorem spared_controlAll (h : t ∉ targets.map Prod.fst) :
    Spared t w (targets.foldl (World.controlled op) w) := by
  induction targets generalizing w with
  | nil => exact .refl
  | cons x targets ih =>
    rw [List.map_cons, List.mem_cons, not_or] at h
    exact (spared_controlled h.1).trans (ih h.2)

/-- Of distinct targets each is marked once. -/
theorem marked_controlAll (hnodup : (targets.map Prod.fst).Nodup) (h : target ∈ targets) :
    Marked op target.1 target.2.agent w (targets.foldl (World.controlled op) w) := by
  induction targets generalizing w with
  | nil => cases h
  | cons x targets ih =>
    rw [List.map_cons, List.nodup_cons] at hnodup
    obtain rfl | h := List.mem_cons.mp h
    · have hafter : Spared target.1 (w.controlled op target)
          (targets.foldl (World.controlled op) (w.controlled op target)) :=
        spared_controlAll hnodup.1
      have hself : Marked op target.1 target.2.agent w (w.controlled op target) :=
        marked_controlled
      exact ⟨hafter.row.trans hself.row, hafter.events.trans hself.events,
        hafter.mail ▸ hself.mail⟩
    · have hne : target.1 ≠ x.1 := fun heq =>
        hnodup.1 (heq ▸ List.mem_map_of_mem h)
      have hbefore : Spared target.1 w (w.controlled op x) := spared_controlled hne
      have hrest := ih (w := w.controlled op x) hnodup.2 h
      refine ⟨hrest.row.trans (by rw [hbefore.row]), hrest.events.trans (by rw [hbefore.events]),
        hrest.mail.trans ?_⟩
      have haddress : addressable target.2.agent (w.controlled op x) =
          addressable target.2.agent w := by
        unfold addressable
        rw [controlled_agents]
      rw [haddress, hbefore.mail]

/-! ## Handed out -/

/-- All that was handed to the transports since is of this kind. -/
structure Mailed (P : AgentId × ToAgentMessage → Prop) (w w' : World) : Prop where
  pushed : ∃ mail, w'.pushed = w.pushed ++ mail ∧ ∀ m ∈ mail, P m
  posted : ∃ mail, w'.posted = w.posted ++ mail ∧ ∀ m ∈ mail, P m

section

variable {P : AgentId × ToAgentMessage → Prop}

namespace Mailed

theorem refl : Mailed P w w := ⟨⟨[], by simp, by simp⟩, [], by simp, by simp⟩

theorem trans (h : Mailed P w w') (h' : Mailed P w' w'') : Mailed P w w'' := by
  obtain ⟨⟨pushed, hpushed, hp⟩, posted, hposted, hq⟩ := h
  obtain ⟨⟨pushed', hpushed', hp'⟩, posted', hposted', hq'⟩ := h'
  refine ⟨⟨pushed ++ pushed', by simp [hpushed', hpushed], ?_⟩,
    posted ++ posted', by simp [hposted', hposted], ?_⟩
  · intro m hm
    obtain hm | hm := List.mem_append.mp hm
    · exact hp m hm
    · exact hp' m hm
  · intro m hm
    obtain hm | hm := List.mem_append.mp hm
    · exact hq m hm
    · exact hq' m hm

theorem delivered (hm : P (a, m)) : Mailed P w (w.delivered a m) := by
  unfold World.delivered
  split
  · exact .refl
  split
  · exact ⟨⟨[(a, m)], rfl, by simpa using hm⟩, [], by simp, by simp⟩
  · split
    · exact ⟨⟨[], by simp, by simp⟩, [(a, m)], rfl, by simpa using hm⟩
    · exact .refl

theorem controlled (hm : P (target.2.agent, op.toAgent target.1)) :
    Mailed P w (w.controlled op target) := by
  have h : Mailed P { w with
      db := (w.db.saveTask target.1 { latestInstructKind := some op.instructKind } 0).record
        { task := target.1, kind := op.ingKind } } (w.controlled op target) := delivered hm
  exact ⟨h.pushed, h.posted⟩

theorem controlAll
    (hm : ∀ x ∈ targets, P (x.2.agent, op.toAgent x.1)) :
    Mailed P w (targets.foldl (World.controlled op) w) := by
  induction targets generalizing w with
  | nil => exact .refl
  | cons x targets ih =>
    exact (controlled (hm x List.mem_cons_self)).trans
      (ih fun y hy => hm y (List.mem_cons_of_mem _ hy))

end Mailed

end

end Control
end Rekuest
