import Rekuest.Tasks.Redelivery
import Rekuest.Tasks.Resolution

/-!
# Rekuest.Tasks.Tenancy

The tasks of an organization, and the agents of another.

* `TaskIn o`: a task whose agent, parent and stored dependencies belong to the organization `o`.
* `Isolated`: every stored task is such, of one organization each, and the implementations are as
  their registration leaves them.
* `NamedIn`: what an assign names belongs to the caller's organization. `LocalRun`: so it was of
  every assign of a run. `isolated_run`: such a run keeps the database isolated.
* `stays_inside_iff`: after such a run, an assign stays inside just when what it names is inside.
-/

namespace Rekuest
namespace Tenancy

open Interleave Interleave.Prog
open Backend (AssignInput Resolved truthy)
open Control (Mailed)
open Redelivery (mailSince of_mem_mailSince wp_found wp_implementation)

/-! ## Isolated databases -/

structure TaskIn (db : Database) (o : Organization) (task : Task) : Prop where
  agent : AgentIn db o task.agent
  parent : ∀ p, task.parent = some p → ParentIn db o p
  dependencies : SealedDict db o task.dependencies

/-- The implementation is of the organization: by its agent, its action, the implementation that
it wraps and what its projection binds. -/
structure ImplementationOf (db : Database) (o : Organization) (impl : Implementation) : Prop where
  agent : AgentIn db o impl.agent
  action : ∀ action, db.actions.get impl.action = some action → action.organization = o
  lower : ∀ lowerId lower, impl.higherOrderFor = some lowerId →
    db.implementations.get lowerId = some lower → lower.agent = impl.agent
  constants : ∀ m ∈ impl.higherOrderConfig.dependencyMap, ∀ value, m.2.value = some value →
    Sealed db o value

structure Isolated (db : Database) : Prop where
  implementations : ∀ id impl, db.implementations.get id = some impl →
    ∃ o, ImplementationOf db o impl
  tasks : ∀ t task, db.tasks.get t = some task → ∃ o, TaskIn db o task

/-- The later database has what the earlier one has, each agent in the same organization. -/
structure SameTenants (db db' : Database) : Prop extends db.Evolves db' where
  agents : ∀ {a o}, AgentIn db o a → AgentIn db' o a

variable {S : Settings} {ok : Input → Stmt → World → Prop} {w w' w₁ : World} {db db' : Database}
  {o o' : Organization} {a : AgentId} {t : TaskId} {task task' : Task} {impl : Implementation}
  {input : AssignInput} {target : Resolved} {ctx : CallerContext}

namespace SameTenants

theorem implementationIn (h : SameTenants db db') {id : ImplementationId}
    (hin : ImplementationIn db o id) : ImplementationIn db' o id := by
  obtain ⟨impl, hg, ha⟩ := hin
  exact ⟨impl, by rw [h.implementations, hg], h.agents ha⟩

theorem parentIn (h : SameTenants db db') {p : TaskId} (hin : ParentIn db o p) :
    ParentIn db' o p := by
  obtain ⟨task, hg, ha⟩ := hin
  obtain ⟨task', hg', he⟩ := h.tasks hg
  exact ⟨task', hg', by rw [he.agent_eq]; exact h.agents ha⟩

theorem sealed (h : SameTenants db db') {json : Json} (hs : Sealed db o json) :
    Sealed db' o json := by
  intro r hr
  have hin := hs r hr
  cases r with
  | agent id => exact h.agents hin
  | implementation id => exact h.implementationIn hin

theorem taskIn (h : SameTenants db db') (he : task.Evolves task') (hin : TaskIn db o task) :
    TaskIn db' o task' where
  agent := by rw [he.agent_eq]; exact h.agents hin.agent
  parent p hp := h.parentIn (hin.parent p (he.parent_eq.symm.trans hp))
  dependencies := by
    have hsame : task'.dependencies = task.dependencies := by rw [he.same]
    rw [hsame]
    exact fun m hm => h.sealed (hin.dependencies m hm)

theorem implementationOf (h : SameTenants db db') (hof : ImplementationOf db o impl) :
    ImplementationOf db' o impl where
  agent := h.agents hof.agent
  action action hg := hof.action action (by rw [← h.actions, hg])
  lower lowerId lower hlower hg := hof.lower lowerId lower hlower (by rw [← h.implementations, hg])
  constants m hm value hv := h.sealed (hof.constants m hm value hv)

/-- The database stays isolated, if its new tasks are. -/
theorem isolated (h : SameTenants db db') (hiso : Isolated db)
    (hnew : ∀ t task, db'.tasks.get t = some task → db.tasks.get t = none → ∃ o, TaskIn db' o task) :
    Isolated db' where
  implementations id impl hg := by
    obtain ⟨o, hof⟩ := hiso.implementations id impl (by rw [← h.implementations, hg])
    exact ⟨o, h.implementationOf hof⟩
  tasks t task' hg' := by
    cases hg : db.tasks.get t with
    | none => exact hnew t task' hg' hg
    | some task =>
      obtain ⟨o, hin⟩ := hiso.tasks t task hg
      obtain ⟨task'', hg'', he⟩ := h.tasks hg
      cases hg'.symm.trans hg''
      exact ⟨o, h.taskIn he hin⟩

end SameTenants

/-! ## What an assign names -/

/-- The parent, the action and the implementation that the input names are of the organization. -/
structure NamedIn (db : Database) (o : Organization) (input : AssignInput) : Prop where
  parent : ∀ p, input.parent = some p → ParentIn db o p
  action : truthy input.dependency = false → ∀ id, input.action = some id → ActionIn db o id
  implementation : truthy input.dependency = false → input.action = none →
    ∀ id, input.implementation = some id → ImplementationIn db o id

theorem ParentIn.taskIn (hiso : Isolated db) {p : TaskId} (h : ParentIn db o p) :
    ∃ parent, db.tasks.get p = some parent ∧ TaskIn db o parent := by
  obtain ⟨parent, hg, ha⟩ := h
  obtain ⟨o', hin⟩ := hiso.tasks p parent hg
  cases hin.agent.unique ha
  exact ⟨parent, hg, hin⟩

theorem ImplementationOf.of_agentIn (hiso : Isolated db) {id : ImplementationId}
    (hg : db.implementations.get id = some impl) (ha : AgentIn db o impl.agent) :
    ImplementationOf db o impl := by
  obtain ⟨o', hof⟩ := hiso.implementations id impl hg
  cases hof.agent.unique ha
  exact hof

/-- Where the names are inside, so is the target, with what its slot depends on. -/
theorem NamedIn.targetIn (h : NamedIn db o input) (hiso : Isolated db)
    (ht : Target db o input target) : ImplementationOf db o target.implementation ∧
      ∀ dependencies, target.dependencyDict = some dependencies → SealedDict db o dependencies := by
  obtain ⟨hg, hresolves⟩ := ht
  obtain ⟨o', hof⟩ := hiso.implementations target.id target.implementation hg
  cases hresolves with
  | dependency named hp hparent hmem hid hdict =>
    obtain ⟨parent', hg', hin⟩ := (h.parent _ hp).taskIn hiso
    cases hparent.symm.trans hg'
    obtain ⟨m, hm, rfl⟩ := List.mem_map.mp hmem
    have hsealed := hin.dependencies m hm
    obtain ⟨impl, himpl, ha⟩ := hsealed _ hid
    cases hg.symm.trans himpl
    exact ⟨.of_agentIn hiso hg ha, fun dependencies hdep => Sealed.dict fun r hr =>
      hsealed r (hdict dependencies hdep r hr)⟩
  | action named hid haction himpl =>
    obtain ⟨action, haction, rfl⟩ := h.action named _ hid
    cases hof.action action (by rw [himpl, haction])
    exact ⟨hof, nofun⟩
  | implementation named hnone hid =>
    obtain ⟨impl, himpl, ha⟩ := h.implementation named hnone _ hid
    cases hg.symm.trans himpl
    exact ⟨.of_agentIn hiso hg ha, nofun⟩
  | hash named hnone hbare haction himpl =>
    obtain ⟨action, haction, rfl⟩ := haction
    cases hof.action action (by rw [himpl, haction])
    exact ⟨hof, nofun⟩

/-- And where the parent and the target are inside, so is what was named. -/
theorem Target.namedIn (ht : Target db o input target) (hiso : Isolated db)
    (hparent : ∀ p, input.parent = some p → ParentIn db o p)
    (ha : AgentIn db o target.implementation.agent) : NamedIn db o input := by
  obtain ⟨hg, hresolves⟩ := ht
  have hof := ImplementationOf.of_agentIn hiso hg ha
  refine ⟨hparent, fun hnamed id hid => ?_, fun hnamed hnone id hid => ?_⟩
  · cases hresolves with
    | dependency named => rw [hnamed] at named; cases named
    | action named hid' haction himpl =>
      cases hid.symm.trans hid'
      obtain ⟨action, haction⟩ := Option.isSome_iff_exists.mp haction
      exact ⟨action, haction, hof.action action (by rw [himpl, haction])⟩
    | implementation named hnone => rw [hid] at hnone; cases hnone
    | hash named hnone => rw [hid] at hnone; cases hnone
  · cases hresolves with
    | dependency named => rw [hnamed] at named; cases named
    | action named hid' => rw [hnone] at hid'; cases hid'
    | implementation named hnone hid' =>
      cases hid.symm.trans hid'
      exact ⟨_, hg, ha⟩
    | hash named hnone hbare => rw [hid] at hbare; cases hbare

/-! ## What an assign stores and hands out -/

/-- What the world has got since. Where `P`, all of it is of the organization. -/
structure Grown (P : Prop) (o : Organization) (w w' : World) : Prop where
  agents : w'.db.agents = w.db.agents
  evolves : w.db.Evolves w'.db
  tasks : P → ∀ t task, w'.db.tasks.get t = some task → w.db.tasks.get t = none →
    TaskIn w'.db o task
  mail : P → Mailed (fun x => AgentIn w.db o x.1) w w'

namespace Grown

variable {P : Prop}

theorem sameTenants (h : Grown P o w w') : SameTenants w.db w'.db where
  toEvolves := h.evolves
  agents ha := by
    obtain ⟨row, hg, hrow⟩ := ha
    exact ⟨row, by rw [h.agents, hg], hrow⟩

/-- A caller row at most. -/
theorem of_callers (hcallers : ∃ callers, w' = { w with db := { w.db with callers := callers } }) :
    Grown P o w w' := by
  obtain ⟨callers, rfl⟩ := hcallers
  refine ⟨rfl, ⟨rfl, rfl, fun h => ⟨_, h, .refl⟩⟩, fun _ t task hg hnone => ?_, fun _ =>
    ⟨⟨[], by simp, by simp⟩, [], by simp, by simp⟩⟩
  cases hg.symm.trans hnone

theorem refl : Grown P o w w := .of_callers ⟨w.db.callers, rfl⟩

/-- One more task. -/
theorem withTask (h : Grown P o w w') {row : Task} (hrow : P → AgentIn w'.db o row.agent ∧
    (∀ p, row.parent = some p → ParentIn w'.db o p) ∧ SealedDict w'.db o row.dependencies) :
    Grown P o w (w'.withTask row) where
  agents := h.agents
  evolves := h.evolves.trans ⟨rfl, rfl, fun hg => ⟨_, Table.get_insert_of_get hg, .refl⟩⟩
  tasks hP t task hg hnone := by
    have hsame : SameTenants w'.db (w'.withTask row).db :=
      ⟨⟨rfl, rfl, fun hg => ⟨_, Table.get_insert_of_get hg, .refl⟩⟩, id⟩
    rcases Table.get_insert_cases hg with ⟨_, rfl⟩ | ⟨_, hold⟩
    · obtain ⟨ha, hparent, hdependencies⟩ := hrow hP
      exact ⟨hsame.agents ha, fun p hp => hsame.parentIn (hparent p hp),
        fun m hm => hsame.sealed (hdependencies m hm)⟩
    · exact hsame.taskIn .refl (h.tasks hP t task hold hnone)
  mail hP := ⟨(h.mail hP).pushed, (h.mail hP).posted⟩

/-- One more message. -/
theorem delivered (h : Grown P o w w') {m : ToAgentMessage} (ha : P → AgentIn w.db o a) :
    Grown P o w (w'.delivered a m) where
  agents := by rw [World.delivered_db, h.agents]
  evolves := by rw [World.delivered_db]; exact h.evolves
  tasks := by rw [World.delivered_db]; exact h.tasks
  mail hP := (h.mail hP).trans (.delivered (ha hP))

end Grown

/-- The token and the Assign of a task, and then what only reads, and answers with `t`. -/
theorem wp_handOut {P : Prop} {m : Option Token → Assign} {f : Handler TaskId}
    {Q : Except Error TaskId → World → Prop} {id : TaskId}
    (hf : Prog.Issues (L := Statements) Stmt.IsRead f) (hy : ∀ db, YieldsOn S db (· = t) f)
    (hthere : (w'.db.agents.get a).isSome = true) (h : Grown P o w w')
    (ha : P → AgentIn w.db o a)
    (hQ : ∀ r w'', Grown P o w w'' → w''.db = w'.db → (∀ t', r = .ok t' → t' = t) → Q r w'') :
    wp (exec S) ok ((Backend.mintToken id ctx).bind fun token =>
      (broadcast a (.assign (m token))).bind fun _ => f) Q w' := by
  refine wp_bind_reads Backend.mintToken_reads (fun e => hQ _ _ h rfl nofun) fun token => ?_
  refine wp_bind.mpr (wp_broadcast hthere (wp_mono ?_ (wp_yieldsOn hf (hy _))))
  rintro r _ ⟨rfl, hr⟩
  exact hQ r _ (h.delivered ha) World.delivered_db hr

/-- The task of the answer is new, under the parent that was named, and runs where the input
resolves to. -/
def Answers (db : Database) (o : Organization) (input : AssignInput) (r : Except Error TaskId)
    (db' : Database) : Prop :=
  ∀ t, r = .ok t → ∃ target row, Target db o input target ∧ db.tasks.get t = none ∧
    db'.tasks.get t = some row ∧ row.parent = input.parent ∧
    row.agent = target.implementation.agent ∧ db.hasTask input.parent = true

/-- What the input names, and what the caller chose, is inside. -/
def Inside (db : Database) (o : Organization) (input : AssignInput) : Prop :=
  NamedIn db o input ∧ Mapped db o input.dependencies

/-- The world after an assign: grown, and with the task of the answer. -/
def Assigned (o : Organization) (input : AssignInput) (w : World) (r : Except Error TaskId)
    (w' : World) : Prop :=
  Grown (Inside w.db o input) o w w' ∧ Answers w.db o input r w'.db

/-- The dependencies that are bound, and nothing written. -/
theorem wp_bound {β : Type} {id : ImplementationId} {f : Dict Json → Handler β}
    {Q : Except Error β → World → Prop} (herr : ∀ e, Q (.error e) w)
    (h : ∀ dependencies, (Mapped w.db o input.dependencies → SealedDict w.db o dependencies) →
      wp (exec S) ok (f dependencies) Q w) :
    wp (exec S) ok ((Backend.buildDependencyDict id o input.dependencies).bind f) Q w := by
  have hreads : Issues Stmt.IsRead (Backend.buildDependencyDict id o input.dependencies) :=
    Backend.resolves_isRead.buildDependencyDict
  by_cases hmapped : Mapped w.db o input.dependencies
  · refine wp_bind.mpr (wp_mono ?_ (wp_yieldsOn hreads (yields_buildDependencyDict hmapped)))
    rintro (e | dependencies) _ ⟨rfl, hr⟩
    · exact herr e
    · exact h dependencies fun _ => hr dependencies rfl
  · exact wp_bind_reads hreads herr fun dependencies => h dependencies fun hm => absurd hm hmapped

theorem Assigned.refused {e : Error} : Assigned o input w (.error e) w := ⟨.refl, nofun⟩

/-- A caller row more or less makes no difference, nor does the reference. -/
theorem Inside.of_callers {callers : Table Caller} {reference : Option String}
    (h : Inside db o input) :
    Inside { db with callers := callers } o { input with reference := reference } :=
  ⟨⟨h.1.parent, h.1.action, h.1.implementation⟩, h.2⟩

theorem Assigned.of_callers {callers : Table Caller} {r : Except Error TaskId}
    (h : Assigned o input { w with db := { w.db with callers := callers } } r w') :
    Assigned o input w r w' := by
  have hinside : Inside w.db o input → Inside { w.db with callers := callers } o input :=
    Inside.of_callers
  obtain ⟨⟨hagents, hevolves, htasks, hmail⟩, hanswers⟩ := h
  refine ⟨⟨hagents, ⟨hevolves.implementations, hevolves.actions, hevolves.tasks⟩,
    fun hi => htasks (hinside hi), fun hi => ?_⟩, fun t ht => ?_⟩
  · obtain ⟨hpushed, hposted⟩ := hmail (hinside hi)
    exact ⟨hpushed, hposted⟩
  · obtain ⟨target, row, ⟨hg, hresolves⟩, hnew, hrow, hparent, hagent, hadmits⟩ := hanswers t ht
    refine ⟨target, row, ⟨hg, ?_⟩, hnew, hrow, hparent, hagent, hadmits⟩
    cases hresolves with
    | dependency named hp hparent hmem hid hdict =>
      exact .dependency named hp hparent hmem hid hdict
    | action named hid haction himpl => exact .action named hid haction himpl
    | implementation named hnone hid => exact .implementation named hnone hid
    | hash named hnone hbare haction himpl => exact .hash named hnone hbare haction himpl

/-- A task that is stored, of what the target and the parent that was named give. -/
theorem Grown.storeRoot (hiso : Isolated w.db) (ht : Target w.db o input target) {row : Task}
    (hparent : row.parent = input.parent) (hagent : row.agent = target.implementation.agent)
    (hdependencies : Inside w.db o input → SealedDict w.db o row.dependencies) :
    Grown (Inside w.db o input) o w (w.withTask row) :=
  Grown.refl.withTask fun hinside => ⟨by rw [hagent]; exact (hinside.1.targetIn hiso ht).1.agent,
    fun p hp => hinside.1.parent p (hparent.symm.trans hp), hdependencies hinside⟩

theorem wp_lifted {α β : Type} {x : Except HigherOrder.ProjectionError α} {f : α → Handler β}
    {Q : Except Error β → World → Prop} (herr : ∀ e, Q (.error e) w)
    (h : ∀ a, x = .ok a → wp (exec S) ok (f a) Q w) :
    wp (exec S) ok ((Backend.liftProjection x).bind f) Q w := by
  cases x with
  | ok a => exact h a rfl
  | error e => cases e <;> exact herr _

theorem wp_assignHigherOrder {higher : Implementation} {higherId lowerId : ImplementationId}
    {c : CallerId} {dict : Option (Dict Json)} (hiso : Isolated w.db)
    (ht : Target w.db o input ⟨higherId, higher, dict⟩) (hho : higher.higherOrderFor = some lowerId) :
    wp (exec S) ok (Backend.assignHigherOrder S ctx o input higherId higher lowerId c)
      (Assigned o input w) w := by
  have hself : ∀ e, Assigned o input w (.error e) w := fun _ => .refused
  refine wp_implementation (hself _) fun lower hlower => wp_found (hself _) fun lowerAction _ =>
    wp_bind_reads (.issue trivial) hself fun available => wp_found (hself _) fun available _ => ?_
  split
  · exact hself _
  refine wp_bound hself fun higherDependencies hhigher =>
    wp_bind_reads Backend.resolves_isRead.liftProjection hself fun lowerArgs => ?_
  refine wp_lifted hself fun lowerDependencies hbuilt =>
    wp_bind_reads Backend.resolves_isRead.referenceFor hself fun reference => ?_
  refine wp_bind.mpr (Backend.wp_storeTask hself fun hadmits => ?_)
  have hroot : Grown (Inside w.db o input) o w (w.withTask (Backend.wrapperTask S input higherId
      higher c reference higherDependencies)) :=
    .storeRoot hiso ht rfl rfl fun hinside => hhigher hinside.2
  have hof : Inside w.db o input → ImplementationOf w.db o higher := fun hinside =>
    (hinside.1.targetIn hiso ht).1
  have hlowerAgent : lower.agent = higher.agent := by
    obtain ⟨o', hof⟩ := hiso.implementations higherId higher ht.1
    exact hof.lower lowerId lower hho hlower
  refine wp_bind_reads (.issue trivial) (fun _ => ⟨hroot, nofun⟩) fun lowerReference => ?_
  refine wp_bind.mpr (Backend.wp_storeTask (fun _ => ⟨hroot, nofun⟩) fun hchild => ?_)
  refine wp_handOut (f := .ret w.db.tasks.next) trivial (fun _ => rfl) ?_ (hroot.withTask ?_) ?_ ?_
  · exact (admits_iff.mp hchild).2.2.1
  · intro hinside
    refine ⟨?_, ?_, fun m hm => hroot.sameTenants.sealed ?_⟩
    · show AgentIn _ o lower.agent
      rw [hlowerAgent]
      exact hroot.sameTenants.agents (hof hinside).agent
    · rintro _ ⟨⟩
      exact ⟨_, Table.get_insert_next, hroot.sameTenants.agents (hof hinside).agent⟩
    · exact sealed_buildLowerDependencies (hhigher hinside.2) (hof hinside).constants hbuilt m hm
  · intro hinside
    rw [hlowerAgent]
    exact (hof hinside).agent
  · intro r w'' hgrown hdb hr
    refine ⟨hgrown, fun t h => ?_⟩
    cases hr t h
    refine ⟨_, Backend.wrapperTask S input higherId higher c reference higherDependencies, ht,
      Table.get_next, ?_, rfl, rfl, ?_⟩
    · rw [hdb]
      exact Table.get_insert_of_get Table.get_insert_next
    · exact (admits_iff.mp hadmits).1

theorem wp_callerRow {key : AgentIdentity} :
    wp (exec S) ok (Prog.issue (L := Statements) (.getOrCreateCaller key) : Handler CallerId)
      (fun _ w' => ∃ callers, w' = { w with db := { w.db with callers := callers } }) w :=
  CallerControl.wp_getOrCreateCaller (fun _ _ => ⟨w.db.callers, rfl⟩) fun _ => ⟨_, rfl⟩

theorem wp_getCaller : wp (exec S) ok (Backend.getCallerForContext ctx o)
    (fun _ w' => ∃ callers, w' = { w with db := { w.db with callers := callers } }) w := by
  unfold Backend.getCallerForContext
  cases ctx.client with
  | none => exact ⟨w.db.callers, rfl⟩
  | some client => exact wp_callerRow

theorem isolated_callers {callers : Table Caller} (h : Isolated w.db) :
    Isolated { w.db with callers := callers } := by
  have hsame : SameTenants w.db { w.db with callers := callers } :=
    ⟨⟨rfl, rfl, fun hg => ⟨_, hg, .refl⟩⟩, id⟩
  refine hsame.isolated h fun t task hg hnone => ?_
  cases hg.symm.trans hnone

theorem wp_assignPlain {action : Action} {reference : String} {c : CallerId}
    {dependencies : Dict Json} (hiso : Isolated w.db) (ht : Target w.db o input target)
    (hdependencies : Inside w.db o input → SealedDict w.db o dependencies) :
    wp (exec S) ok
      ((Backend.storeTask (Backend.plainTask S input target c reference dependencies)).bind
        fun task => (Backend.mintToken task ctx).bind fun token =>
        (broadcast target.implementation.agent (.assign {
          task := task
          args := input.args
          user := ctx.user.sub
          org := o.slug
          reference := some reference
          capture := input.capture.getD false
          resolution := none
          interface := target.implementation.interface
          action := action.hash
          implementation := target.id
          token := token })).bind fun _ =>
        (Prog.forEach (fun hook => if hook.kind = .init then .fail .validationError else .ret ())
          input.hooks).bind fun _ => .ret task) (Assigned o input w) w := by
  refine wp_bind.mpr (Backend.wp_storeTask (fun _ => .refused) fun hadmits => ?_)
  have hroot : Grown (Inside w.db o input) o w (w.withTask (Backend.plainTask S input target c
      reference dependencies)) := .storeRoot hiso ht rfl rfl hdependencies
  refine wp_handOut (t := w.db.tasks.next) ?_ (fun _ => yields_bind fun _ => rfl) ?_ hroot ?_ ?_
  · refine Issues.compositional.bind (Issues.compositional.forEach fun hook _ => ?_)
      fun _ => Issues.compositional.ret _
    split <;> trivial
  · exact (admits_iff.mp hadmits).2.2.1
  · exact fun hinside => (hinside.1.targetIn hiso ht).1.agent
  · intro r w'' hgrown hdb hr
    refine ⟨hgrown, fun t h => ?_⟩
    cases hr t h
    refine ⟨target, Backend.plainTask S input target c reference dependencies, ht, Table.get_next,
      ?_, rfl, rfl, (admits_iff.mp hadmits).1⟩
    rw [hdb]
    exact Table.get_insert_next

/-- **An assign** stores and hands out nothing that is not inside, if what it names is. -/
theorem wp_assign (hiso : Isolated w.db) (ho : ctx.organization = some o) :
    wp (exec S) ok (Backend.assign S ctx input) (Assigned o input w) w := by
  unfold Backend.assign
  rw [ho]
  refine wp_bind.mpr (wp_mono ?_ wp_getCaller)
  rintro (e | c) _ ⟨callers, rfl⟩
  · exact .of_callers .refused
  have hiso' : Isolated { w.db with callers := callers } := isolated_callers hiso
  refine wp_mono (fun r w' (h : Assigned o input { w with db := { w.db with callers } } r w') =>
    Assigned.of_callers h) ?_
  refine wp_bind.mpr (wp_mono ?_ wp_resolves)
  rintro (e | target) _ ⟨rfl, htarget⟩
  · exact .refused
  have ht := htarget target rfl
  dsimp only [after]
  split
  · rename_i hho
    exact wp_assignHigherOrder hiso' ht hho
  refine wp_implementation .refused fun impl _ => wp_found .refused fun action _ =>
    wp_bind_reads Backend.resolves_isRead.referenceFor (fun _ => .refused) fun reference => ?_
  cases hdict : target.dependencyDict with
  | some dependencies =>
    exact wp_assignPlain hiso' ht fun hinside => (hinside.1.targetIn hiso' ht).2 dependencies hdict
  | none =>
    exact wp_bound (fun _ => .refused) fun dependencies hsealed =>
      wp_assignPlain hiso' ht fun hinside => hsealed hinside.2

/-! ## Inside -/

/-- All that was stored and handed out since is of the organization: the tasks with their agents,
their parents and their dependencies, and the agents that were given an Assign. -/
structure StaysInside (o : Organization) (w w' : World) : Prop where
  tasks : ∀ t task, w'.db.tasks.get t = some task → w.db.tasks.get t = none → TaskIn w'.db o task
  agents : ∀ a m, (a, .assign m) ∈ mailSince w w' → AgentIn w'.db o a

theorem Assigned.staysInside {r : Except Error TaskId} (h : Assigned o input w r w')
    (hinside : Inside w.db o input) : StaysInside o w w' where
  tasks := h.1.tasks hinside
  agents _ _ hm := h.1.sameTenants.agents (of_mem_mailSince (h.1.mail hinside) hm)

theorem Assigned.namedIn {r : Except Error TaskId} (h : Assigned o input w r w')
    (hiso : Isolated w.db) (hok : r = .ok t) (hstays : StaysInside o w w') :
    NamedIn w.db o input := by
  obtain ⟨hgrown, hanswers⟩ := h
  have hback : ∀ {a}, AgentIn w'.db o a → AgentIn w.db o a := by
    rintro a ⟨row, hg, hrow⟩
    exact ⟨row, by rw [← hgrown.agents, hg], hrow⟩
  obtain ⟨target, row, ht, hnew, hg, hparent, hagent, hthere⟩ := hanswers t hok
  have hin := hstays.tasks t row hg hnew
  refine ht.namedIn hiso (fun p hp => ?_) (by rw [← hagent]; exact hback hin.agent)
  rw [hp] at hthere
  obtain ⟨parent, hparentRow⟩ := Option.isSome_iff_exists.mp hthere
  obtain ⟨parent', hparentRow', he⟩ := hgrown.evolves.tasks hparentRow
  obtain ⟨parent'', hstored, ha⟩ := hin.parent p (hparent.trans hp)
  cases hparentRow'.symm.trans hstored
  exact ⟨parent, hparentRow, by rw [← he.agent_eq]; exact hback ha⟩

/-! ## Runs -/

/-- What an assign of the call names, and what its caller chose, is inside. -/
def LocalCall (w : World) : Call → Prop
  | .postman (.assign ctx input) => ∀ o, ctx.organization = some o → Inside w.db o input
  | .postman (.callerAssign agent _ input) =>
    ∀ row, w.db.agents.get agent = some row → Inside w.db row.organization input
  | _ => True

/-- So it is of every assign of the run. -/
def LocalRun (S : Settings) : World → List (Call × (Nat → Input)) → Prop
  | _, [] => True
  | w, c :: calls => LocalCall w c.1 ∧ LocalRun S (runAlone S (c.1.code S) c.2 w) calls

/-- The statement stores no task, and moves no agent to another organization. -/
def Steady (w : World) : Stmt → Prop
  | .task (.create _) => False
  | .agent (.save id row) => ∀ old, w.db.agents.get id = some old →
    row.organization = old.organization
  | _ => True

theorem agentIn_exec {i : Input} {c : Stmt} (hc : Steady w c) (h : AgentIn w.db o a) :
    AgentIn (exec S i c w).2.db o a := by
  obtain ⟨row, hg, rfl⟩ := h
  have hmodify : ∀ {id : AgentId} {f : Agent → Agent}, (∀ row, w.db.agents.get id = some row →
      (f row).organization = row.organization) → ∃ row', (w.db.agents.modify id f).get a =
        some row' ∧ row'.organization = row.organization := by
    intro id f hf
    rw [Table.get_modify]
    split
    · rename_i ha
      exact ⟨f row, by rw [hg]; rfl, hf row (ha ▸ hg)⟩
    · exact ⟨row, hg, rfl⟩
  have hinsert : ∀ {new : Agent}, ∃ row', (w.db.agents.insert new).get a = some row' ∧
      row'.organization = row.organization := ⟨row, Table.get_insert_of_get hg, rfl⟩
  cases c with
  | read q => exact ⟨row, hg, rfl⟩
  | lease c =>
    show ∃ row', (c.exec S i w.db).2.agents.get a = some row' ∧ _
    rw [LeaseStmt.get_exec]
    split
    · rw [hg]
      exact ⟨_, rfl, rfl⟩
    · exact ⟨row, hg, rfl⟩
  | agent c =>
    cases c with
    | save id new =>
      exact hmodify hc
    | saveTransport id kind hookUrl hookUrlSecret => exact hmodify fun _ _ => rfl
    | getOrCreate identity defaults =>
      show ∃ row', ((AgentStmt.getOrCreate identity defaults).exec w.db).2.agents.get a = _ ∧ _
      simp only [AgentStmt.exec]
      split
      · exact ⟨row, hg, rfl⟩
      · exact hinsert
    | updateOrCreate identity defaults hash =>
      show ∃ row', ((AgentStmt.updateOrCreate identity defaults hash).exec w.db).2.agents.get a =
        _ ∧ _
      simp only [AgentStmt.exec]
      split
      · exact hmodify fun _ _ => rfl
      · exact hinsert
    | pin id user on => exact ⟨row, hg, rfl⟩
  | getOrCreateCaller identity => exact ⟨row, by rw [exec_getOrCreateCaller_agents, hg], rfl⟩
  | task c => exact ⟨row, by rw [exec_task_agents, hg], rfl⟩
  | state c => exact ⟨row, by rw [exec_state_agents, hg], rfl⟩
  | deliver c => exact ⟨row, by rw [exec_deliver_db, hg], rfl⟩
  | timer c => exact ⟨row, by rw [exec_timer_db, hg], rfl⟩

theorem isolated_exec {i : Input} {c : Stmt} (hc : Steady w c) (h : Isolated w.db) :
    Isolated (exec S i c w).2.db := by
  have hsame : SameTenants w.db (exec S i c w).2.db := ⟨exec_evolves, agentIn_exec hc⟩
  refine hsame.isolated h fun t task hg hnone => ?_
  rcases get_exec_cases hg with ⟨old, hold, _⟩ | ⟨rfl, _⟩
  · rw [hold] at hnone
    cases hnone
  · exact hc.elim

theorem keeps_aside {α : Type} {p : Handler α} (hp : Prog.Issues (L := Statements) Stmt.Aside p) :
    Keeps (exec S) ok (fun w => Isolated w.db) p := by
  refine hp.keeps fun i c w hc _ h => isolated_exec ?_ h
  cases c with
  | agent c => exact hc.elim
  | task c =>
    cases c with
    | create row => exact hc.elim
    | _ => trivial
  | _ => trivial

/-- The row of an agent, and what is done with it. -/
theorem wp_getRow {id : AgentId} {f : Agent → Handler Unit} (h : Isolated w.db)
    (hf : ∀ row, w.db.agents.get id = some row →
      wp (exec S) ok (f row) (fun _ w => Isolated w.db) w) :
    wp (exec S) ok ((getAgent id).bind fun row => (orDoesNotExist "Agent" row).bind f)
      (fun _ w => Isolated w.db) w :=
  wp_bind.mpr (wp_ask fun _ => wp_found h hf)

/-- The save of a row that was read. -/
theorem steady_save {id : AgentId} {old row : Agent} (hg : w.db.agents.get id = some old)
    (horganization : row.organization = old.organization) : Steady w (.agent (.save id row)) := by
  intro old' hg'
  cases hg.symm.trans hg'
  exact horganization

theorem keeps_agentCall {c : AgentCall} : Keeps (exec S) ok (fun w => Isolated w.db) c.code := by
  intro w h
  cases c with
  | block agent reason =>
    refine wp_getRow h fun row hg => wp_bind.mpr fun i _ => ?_
    exact keeps_aside (broadcast_built Issues.compositional (.issue trivial) (.issue trivial)
      (.issue trivial)) _ (isolated_exec (steady_save hg rfl) h)
  | unblock agent =>
    exact wp_getRow h fun row hg i _ => isolated_exec (steady_save hg rfl) h
  | updateAgent agent name =>
    exact wp_getRow h fun row hg i _ => isolated_exec (steady_save hg rfl) h
  | pinAgent agent user pin =>
    refine wp_getRow h fun row hg => wp_bind.mpr fun i _ => ?_
    exact fun i _ => isolated_exec (steady_save hg rfl) (isolated_exec trivial h)
  | ensureAgent identity defaults kind hookUrl hookUrlSecret =>
    have hstmt : ∀ c : AgentStmt, (∀ w, Steady w (.agent c)) →
        Keeps (exec S) ok (fun w => Isolated w.db) (AgentMutations.agentStmt c) := fun c hc =>
      Keeps.issue fun i w _ h => isolated_exec (hc w) h
    refine discard_built Keeps.compositional (Keeps.compositional.bind
      (hstmt (.getOrCreate identity defaults) fun _ => trivial) fun id => ?_) w h
    split
    · exact Keeps.compositional.bind (hstmt (.saveTransport id kind hookUrl hookUrlSecret)
        fun _ => trivial) fun _ => Keeps.compositional.ret _
    · exact Keeps.compositional.ret _
  | implementAgent identity defaults hash =>
    refine wp_bind.mpr (wp_bind.mpr (wp_ask fun i => ?_))
    exact fun j _ => isolated_exec (c := .agent (.updateOrCreate ..)) trivial h

theorem wp_keepsIsolated (hiso : Isolated w.db)
    (h : ∀ o, ctx.organization = some o → Inside w.db o input) :
    wp (exec S) ok (Backend.assign S ctx input) (fun _ w' => Isolated w'.db) w := by
  cases ho : ctx.organization with
  | none =>
    unfold Backend.assign
    rw [ho]
    exact hiso
  | some o =>
    refine wp_mono (fun r w' hassigned => ?_) (wp_assign hiso ho)
    exact hassigned.1.sameTenants.isolated hiso fun t task hg hnone =>
      ⟨o, hassigned.1.tasks (h o ho) t task hg hnone⟩

theorem controlTarget_aside {op : Backend.ControlOp} {target : TaskId × Task} :
    Prog.Issues (L := Statements) Stmt.Aside (Backend.controlTarget op target) :=
  Issues.compositional.bind (.issue trivial) fun _ => Issues.compositional.bind
    (createEvent_built Issues.compositional (.issue trivial)) fun _ => broadcast_built
      Issues.compositional (.issue trivial) (.issue trivial) (.issue trivial)

theorem requestControl_aside {op : Backend.ControlOp} {id : TaskId} :
    Prog.Issues (L := Statements) Stmt.Aside (Backend.requestControl op id) :=
  Backend.requestControl_built Issues.compositional (fun _ => .issue trivial)
    fun _ => controlTarget_aside

theorem callerControl_aside {agent : AgentId} {op : Backend.ControlOp} {id : TaskId} :
    Prog.Issues (L := Statements) Stmt.Aside (Backend.callerControlSync agent op id) :=
  Backend.callerControlSync_built Issues.compositional (fun _ => .issue trivial)
    (fun _ => .issue trivial) fun _ => controlTarget_aside

theorem escalate_aside {id : TaskId} :
    Prog.Issues (L := Statements) Stmt.Aside (Backend.escalateToInterrupt id) := by
  refine Issues.compositional.bind (.issue trivial) fun row => ?_
  cases row with
  | none => trivial
  | some task =>
    dsimp only
    split
    · trivial
    refine Issues.compositional.bind requestControl_aside.attempt fun answer => ?_
    split <;> trivial

/-- Every call whose assign is inside keeps the database isolated. -/
theorem isolated_call {c : Call} {i : Nat → Input} (h : Isolated w.db) (hlocal : LocalCall w c) :
    Isolated (runAlone S (c.code S) i w).db := by
  suffices hwp : wp (exec S) anyStep (c.code S) (fun _ w => Isolated w.db) w from
    wp_run hwp meets_any
  have hdiscard : ∀ {α : Type} {p : Handler α}, wp (exec S) anyStep p (fun _ w => Isolated w.db) w →
      wp (exec S) anyStep (discard p) (fun _ w => Isolated w.db) w := by
    intro α p hp
    refine wp_bind.mpr (wp_mono ?_ hp)
    rintro (e | a) w' h'
    · exact h'
    · exact h'
  cases c with
  | connection c => exact keeps_aside (TaskCall.connection c).aside w h
  | report c => exact keeps_aside (TaskCall.report c).aside w h
  | agent c => exact keeps_agentCall w h
  | postman c =>
    cases c with
    | assign ctx input => exact hdiscard (wp_keepsIsolated h hlocal)
    | control op id => exact hdiscard (keeps_aside requestControl_aside w h)
    | callerAssign agent reference input =>
      refine hdiscard (wp_bind.mpr (wp_ask fun _ => wp_found h fun row hg => ?_))
      have hinside := hlocal row hg
      show wp _ _ (Prog.bind (Prog.issue (L := Statements) (.getOrCreateCaller _)) _) _ _
      refine wp_bind.mpr (wp_mono ?_ wp_callerRow)
      rintro (e | c) _ ⟨callers, rfl⟩
      · exact isolated_callers h
      refine wp_bind.mpr (wp_ask fun _ => ?_)
      dsimp only [after]
      split
      · exact isolated_callers h
      split
      · exact isolated_callers h
      refine wp_bind_reads (.issue trivial) (fun _ => isolated_callers h) fun roles => ?_
      refine wp_bind.mpr (wp_mono ?_ (wp_keepsIsolated (isolated_callers h) ?_))
      · rintro (e | t) w' h'
        · exact h'
        · exact h'
      · rintro _ ⟨⟩
        exact hinside.of_callers
    | callerControl agent op id => exact hdiscard (keeps_aside callerControl_aside w h)
    | callerCancel server agent id autoInterrupt =>
      refine hdiscard (keeps_aside (Issues.compositional.bind callerControl_aside
        fun task => ?_) w h)
      cases autoInterrupt with
      | none => trivial
      | some window => exact ⟨trivial, fun _ => trivial⟩
    | escalate id => exact keeps_aside escalate_aside w h

theorem isolated_run {calls : List (Call × (Nat → Input))} (h : Isolated w.db)
    (hlocal : LocalRun S w calls) : Isolated (runAll S (Call.code S) w calls).db := by
  induction calls generalizing w with
  | nil => exact h
  | cons c calls ih => exact ih (isolated_call h hlocal.1) hlocal.2

/-- **Tenancy.** After every run whose assigns named and chose what belongs to their callers'
organizations, an assign that answers, and whose chosen agents are its caller's, stays inside its
caller's organization just when the parent, the action and the implementation it names are in it. -/
theorem stays_inside_iff (S : Settings) (w₀ : World) (h₀ : Isolated w₀.db)
    (calls : List (Call × (Nat → Input))) (hlocal : LocalRun S w₀ calls) (ctx : CallerContext)
    (o : Organization) (ho : ctx.organization = some o) (input : AssignInput)
    (hmapped : Mapped (runAll S (Call.code S) w₀ calls).db o input.dependencies)
    (i : Nat → Input) (t : TaskId)
    (hok : ((Backend.assign S ctx input).run (exec S) i (runAll S (Call.code S) w₀ calls)).result =
      .ok t) :
    StaysInside o (runAll S (Call.code S) w₀ calls)
        (runAlone S (Backend.assign S ctx input) i (runAll S (Call.code S) w₀ calls)) ↔
      NamedIn (runAll S (Call.code S) w₀ calls).db o input := by
  have hiso := isolated_run h₀ hlocal
  generalize runAll S (Call.code S) w₀ calls = w at hmapped hok hiso
  have hwp : wp (exec S) anyStep (Backend.assign S ctx input) (Assigned o input w) w :=
    wp_assign hiso ho
  have hassigned := wp_run hwp (i := i) meets_any
  exact ⟨hassigned.namedIn hiso hok, fun hnamed => hassigned.staysInside ⟨hnamed, hmapped⟩⟩

/-- Agent 1 with its two implementations, of one organization, and agent 2 of another. -/
def twoTenants : World :=
  let base := Virtual.wrapperWorld false
  { base with db := { base.db with agents := base.db.agents.insert {
      name := "other", app := "app", release := "1", hash := "hash"
      connected := true, lastSeen := some 0
      user := ⟨2, "other-user"⟩, client := ⟨2, "other-client"⟩, organization := ⟨2, "other"⟩ } } }

theorem isolated_twoTenants : Isolated twoTenants.db where
  implementations id impl hg := by
    have ha : AgentIn twoTenants.db ⟨1, "org"⟩ 1 := ⟨_, rfl, rfl⟩
    have haction : ∀ action, twoTenants.db.actions.get 1 = some action →
        action.organization = ⟨1, "org"⟩ := by
      rintro _ ⟨⟩
      rfl
    rcases Table.get_insert_cases hg with ⟨_, rfl⟩ | ⟨_, hg⟩
    · refine ⟨⟨1, "org"⟩, ha, haction, ?_, nofun⟩
      rintro _ _ ⟨⟩ ⟨⟩
      rfl
    rcases Table.get_insert_cases hg with ⟨_, rfl⟩ | ⟨_, hg⟩
    · exact ⟨⟨1, "org"⟩, ha, haction, nofun, nofun⟩
    · cases hg
  tasks t task hg := by cases hg

theorem stays_inside_iff_dependent :
    StaysInside ⟨1, "org"⟩
        (runAll {} (Call.code {}) twoTenants
          [(.postman (.assign requester { implementation := some 1 }), fun _ => {})])
        (runAlone {} (Backend.assign {} requester { implementation := some 1, parent := some 1 })
          (fun _ => {}) (runAll {} (Call.code {}) twoTenants
            [(.postman (.assign requester { implementation := some 1 }), fun _ => {})])) ↔
      NamedIn (runAll {} (Call.code {}) twoTenants
        [(.postman (.assign requester { implementation := some 1 }), fun _ => {})]).db
          ⟨1, "org"⟩ { implementation := some 1, parent := some 1 } := by
  have hinside : Inside twoTenants.db ⟨1, "org"⟩ { implementation := some 1 } := by
    refine ⟨⟨nofun, nofun, ?_⟩, nofun⟩
    rintro _ _ _ ⟨⟩
    exact ⟨_, rfl, _, rfl, rfl⟩
  have hlocal : LocalRun {} twoTenants
      [(.postman (.assign requester { implementation := some 1 }), fun _ => {})] := by
    refine ⟨?_, trivial⟩
    rintro _ ⟨⟩
    exact hinside
  exact stays_inside_iff {} twoTenants isolated_twoTenants _ hlocal requester ⟨1, "org"⟩ rfl
    { implementation := some 1, parent := some 1 } nofun (fun _ => {}) 2 (by decide +kernel)

/-- Somebody of the other organization. -/
def stranger : CallerContext where
  user := ⟨2, "other-user"⟩
  client := some ⟨2, "other-client"⟩
  organization := some ⟨2, "other"⟩

theorem assign_to_of_mail {mail : List (AgentId × ToAgentMessage)} {agent : AgentId}
    (h : mail.map (fun x => (x.1, x.2.assigned?)) = [(agent, some t)]) :
    ∃ m, (agent, .assign m) ∈ mail := by
  obtain ⟨⟨a, m⟩, rfl, hm⟩ := List.map_eq_singleton_iff.mp h
  cases m with
  | assign m =>
    cases hm
    exact ⟨m, List.mem_singleton_self _⟩
  | _ => cases hm

/-- It assigns an implementation of agent 1 by its id, and agent 1 is given the Assign. -/
theorem other_tenant_assigned : Isolated twoTenants.db ∧
    ((Backend.assign {} stranger { implementation := some 1 }).run (exec {}) (fun _ => {})
      twoTenants).result = .ok 1 ∧
    ¬ StaysInside ⟨2, "other"⟩ twoTenants (runAlone {}
      (Backend.assign {} stranger { implementation := some 1 }) (fun _ => {}) twoTenants) := by
  refine ⟨isolated_twoTenants, by decide +kernel, fun h => ?_⟩
  have hmail : (mailSince twoTenants (runAlone {} (Backend.assign {} stranger
      { implementation := some 1 }) (fun _ => {}) twoTenants)).map
        (fun x => (x.1, x.2.assigned?)) = [(1, some 1)] := by decide +kernel
  have hagent : (((runAlone {} (Backend.assign {} stranger { implementation := some 1 })
      (fun _ => {}) twoTenants).db.agents.get 1).map (·.organization)) = some ⟨1, "org"⟩ := by
    decide +kernel
  obtain ⟨m, hm⟩ := assign_to_of_mail hmail
  obtain ⟨row, hg, hrow⟩ := h.agents 1 m hm
  rw [hg, Option.map_some, hrow] at hagent
  cases hagent

end Tenancy
end Rekuest
