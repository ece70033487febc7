import Rekuest.Interleave.Rely
import Rekuest.Tasks.Linked
import Rekuest.Tasks.Virtual

/-!
# Rekuest.Tasks.Reference

AssignRequests, resent and side by side, and what their references identify.

* `Grows`: what every statement but a write to an agent row leaves in place, callers among it.
* `callerAssignSync_secures`: what the handler answers, whatever others do between its statements.
* `CheckHolds`: a task is created only while the existence check would still find none.
* `reference_identifies_iff`: then, and only then, a caller's reference identifies one task.
* `InTurn`: between a request's check and its store no other request looks for the same.
  `identifies_of_inTurn`: then a reference identifies one task.
-/

namespace Rekuest
namespace Reference

open Interleave Interleave.Prog

variable {S : Settings} {i : Input} {w w' w'' : World} {t id : TaskId} {α : Type}

def identity (agent : Agent) : AgentIdentity := ⟨agent.client, agent.user, agent.organization⟩

/-! ## What stays in place -/

theorem callerOf?_insert {db : Database} {key : AgentIdentity} {k : CallerId} {row : Caller}
    (h : db.callerOf? key = some k) :
    ({ db with callers := db.callers.insert row } : Database).callerOf? key = some k := by
  obtain ⟨⟨j, caller⟩, hhead, rfl⟩ := Option.map_eq_some_iff.mp h
  show (((db.callers.insert row).select _).head?).map (·.1) = _
  rw [Table.select_insert, List.head?_append, hhead]
  rfl

theorem callerOf?_insert_new {db : Database} {key : AgentIdentity}
    (h : db.callerOf? key = none) :
    ({ db with callers := db.callers.insert ⟨key.client, key.user, key.organization⟩ } :
      Database).callerOf? key = some db.callers.next := by
  have hhead := Option.map_eq_none_iff.mp h
  show (((db.callers.insert _).select _).head?).map (·.1) = _
  rw [Table.select_insert, List.head?_append, hhead]
  simp

/-- The later world has the rows of the earlier one, and the identities stand for the same callers
and belong to the same agents. -/
structure Grows (w w' : World) : Prop where
  rows : w.db.Extends w'.db
  callers : ∀ {key k}, w.db.callerOf? key = some k → w'.db.callerOf? key = some k
  agents : ∀ a, (w'.db.agents.get a).map identity = (w.db.agents.get a).map identity

theorem Grows.agent (h : Grows w w') {a : AgentId} {agent : Agent}
    (hg : w.db.agents.get a = some agent) :
    ∃ agent', w'.db.agents.get a = some agent' ∧ identity agent' = identity agent := by
  have ha := h.agents a
  rw [hg] at ha
  exact Option.map_eq_some_iff.mp ha

theorem callers_exec {c : Stmt} {key : AgentIdentity} {k : CallerId}
    (h : w.db.callerOf? key = some k) : (exec S i c w).2.db.callerOf? key = some k := by
  have hsame : ∀ {db : Database}, db.callers = w.db.callers → db.callerOf? key = some k :=
    fun heq => by rw [Database.callerOf?, heq]; exact h
  cases c with
  | read q => exact h
  | lease c =>
    obtain ⟨agents, hdb⟩ := LeaseStmt.exec_frame (S := S) (i := i) c w.db
    refine hsame ?_
    show (c.exec S i w.db).2.callers = _
    rw [hdb]
  | agent c =>
    obtain ⟨agents, pins, hdb⟩ := AgentStmt.exec_frame c w.db
    refine hsame ?_
    show (c.exec w.db).2.callers = _
    rw [hdb]
  | getOrCreateCaller identity =>
    simp only [exec]
    split
    · exact h
    · exact callerOf?_insert h
  | task c =>
    obtain ⟨tasks, events, hdb⟩ := TaskStmt.exec_frame (i := i) c w.db
    refine hsame ?_
    rw [exec_task_db, hdb]
  | state c =>
    obtain ⟨sessions, patches, snapshots, locks, hdb⟩ := StateStmt.exec_frame (i := i) c w.db
    refine hsame ?_
    show (c.exec i w.db).2.callers = _
    rw [hdb]
  | deliver c => rw [exec_deliver_db]; exact h
  | timer c => rw [exec_timer_db]; exact h

theorem agents_exec {c : Stmt} (hc : c.NoAgentRow) (a : AgentId) :
    ((exec S i c w).2.db.agents.get a).map identity = (w.db.agents.get a).map identity := by
  cases c with
  | read q => rfl
  | lease c =>
    show ((c.exec S i w.db).2.agents.get a).map identity = _
    rw [LeaseStmt.get_exec]
    split
    · rw [Option.map_map]
      rfl
    · rfl
  | agent c => exact hc.elim
  | getOrCreateCaller identity => rw [exec_getOrCreateCaller_agents]
  | task c => rw [exec_task_agents]
  | state c => rw [exec_state_agents]
  | deliver c => rw [exec_deliver_db]
  | timer c => rw [exec_timer_db]

theorem grows (S : Settings) : Rely (exec S) Stmt.NoAgentRow Grows where
  refl _ := ⟨.refl, id, fun _ => rfl⟩
  trans h h' := ⟨h.rows.trans h'.rows, fun hk => h'.callers (h.callers hk),
    fun a => (h'.agents a).trans (h.agents a)⟩
  step _ _ _ hc := ⟨extends_exec, callers_exec, agents_exec hc⟩

/-! ## What a request is answered -/

/-- The task belongs to the caller of the identity, under the reference. -/
def Named (key : AgentIdentity) (reference : String) (id : TaskId) (w : World) : Prop :=
  ∃ k task, w.db.callerOf? key = some k ∧ w.db.tasks.get id = some task ∧
    task.caller = some k ∧ task.reference = reference

theorem Named.grows {key : AgentIdentity} {reference : String} (h : Named key reference id w)
    (hw : Grows w w') : Named key reference id w' := by
  obtain ⟨k, task, hk, hg, hcaller, href⟩ := h
  obtain ⟨task', hg', he⟩ := hw.rows.tasks hg
  refine ⟨k, task', hw.callers hk, hg', he.caller_eq.trans hcaller, ?_⟩
  rw [he.same]
  exact href

/-- A program of any use to an AssignRequest: it writes no agent row. -/
theorem assigns_noAgentRow :
    Assigns fun _ p => Prog.Issues (L := Statements) Stmt.NoAgentRow p where
  toCompositional := Issues.compositional
  read _ := .issue trivial
  caller _ := .issue trivial
  create _ _ := .issue trivial
  push _ _ := .issue trivial
  post _ _ := .issue trivial

theorem resolves_noAgentRow :
    Backend.Resolves fun _ p => Prog.Issues (L := Statements) Stmt.NoAgentRow p :=
  assigns_noAgentRow.resolves

variable {Q : Except Error α → World → Prop}

/-- The caller that is looked up or made is the one of the identity. -/
theorem caller_secures {key : AgentIdentity} {f : CallerId → Handler α}
    (h : ∀ k w', Grows w w' → w'.db.callerOf? key = some k → (f k).Secures (exec S) Grows Q w') :
    (Prog.bind (Prog.issue (L := Statements) (.getOrCreateCaller key)) f).Secures (exec S) Grows
      Q w := by
  intro w₁ hw₁ i
  have hgrows : Grows w (exec S i (.getOrCreateCaller key) w₁).2 :=
    (grows S).trans hw₁ ((grows S).step i (.getOrCreateCaller key) w₁ trivial)
  refine h _ _ hgrows ?_
  simp only [exec]
  split
  · assumption
  · rename_i hnone
    exact callerOf?_insert_new hnone

/-- A task that is stored keeps the row it was stored with, but for its progress. -/
theorem storeTask_secures {row : Task} {f : TaskId → Handler α}
    (h : ∀ id w', Grows w w' → (∃ task, w'.db.tasks.get id = some task ∧ row.Evolves task) →
      (f id).Secures (exec S) Grows Q w') (herr : ∀ e w', Q (.error e) w') :
    ((Backend.storeTask row).bind f).Secures (exec S) Grows Q w := by
  unfold Backend.storeTask
  split
  · exact fun w' _ => herr _ w'
  intro w₁ hw₁ i
  have hgrows : Grows w (exec S i (.task (.create row)) w₁).2 :=
    (grows S).trans hw₁ ((grows S).step i (.task (.create row)) w₁ trivial)
  revert hgrows
  simp only [exec, TaskStmt.exec]
  split
  · exact fun hgrows => h _ _ hgrows ⟨row, Table.get_insert_next, .refl⟩
  · exact fun _ w' _ => herr _ w'

theorem found_secures {β : Type} {model : String} {x : Option β} {f : β → Handler α}
    (h : ∀ a, (f a).Secures (exec S) Grows Q w) (herr : ∀ e w', Q (.error e) w') :
    ((orDoesNotExist model x).bind f).Secures (exec S) Grows Q w := by
  cases x with
  | none => exact fun w' _ => herr _ w'
  | some a => exact h a

theorem any_secures {β : Type} {p : Handler β} {f : β → Handler α}
    (hp : Prog.Issues (L := Statements) Stmt.NoAgentRow p)
    (h : ∀ a w', Grows w w' → (f a).Secures (exec S) Grows Q w')
    (herr : ∀ e w', Q (.error e) w') : (p.bind f).Secures (exec S) Grows Q w :=
  Secures.bind_any (grows S) hp h herr

/-- A result is a task of the caller of the identity, under the reference. -/
def Answers (key : AgentIdentity) (reference : String) (r : Except Error TaskId) (w : World) :
    Prop :=
  ∀ id, r = .ok id → Named key reference id w

variable {key : AgentIdentity} {reference : String} {k : CallerId}

theorem answers_error (e : Error) (w : World) : Answers key reference (.error e) w := nofun

theorem answers_ret (h : Named key reference id w) :
    Secures (ε := Error) (exec S) Grows (Answers key reference) (.ret id) w := by
  rintro w' hw' _ ⟨⟩
  exact h.grows hw'

/-- What is left of an assign once its task is stored. -/
theorem dispatch_secures {lower : TaskId} {ctx : CallerContext} {agent : AgentId}
    {m : Option Token → Assign} {p : Handler Unit}
    (hp : Prog.Issues (L := Statements) Stmt.NoAgentRow p) (h : Named key reference id w) :
    ((Backend.mintToken lower ctx).bind fun token => (broadcast agent (.assign (m token))).bind
      fun _ => p.bind fun _ => .ret id).Secures (exec S) Grows (Answers key reference) w := by
  refine any_secures assigns_noAgentRow.mintToken (fun token w₁ hw₁ => ?_) answers_error
  refine any_secures assigns_noAgentRow.broadcast (fun _ w₂ hw₂ => ?_) answers_error
  refine any_secures hp (fun _ w₃ hw₃ => ?_) answers_error
  exact answers_ret (((h.grows hw₁).grows hw₂).grows hw₃)

/-- A row that was just stored. -/
theorem named_of_stored {row : Task} (hk : w.db.callerOf? key = some k)
    (hcaller : row.caller = some k) (href : row.reference = reference)
    (h : ∃ task, w.db.tasks.get id = some task ∧ row.Evolves task) : Named key reference id w := by
  obtain ⟨task, hg, he⟩ := h
  refine ⟨k, task, hk, hg, he.caller_eq.trans hcaller, ?_⟩
  rw [he.same]
  exact href

theorem referenceFor_eq {input : Backend.AssignInput} (hinput : input.reference = some reference)
    (hne : reference ≠ "") : Backend.referenceFor input = .ret reference := by
  simp [Backend.referenceFor, hinput, Backend.truthy, hne]

theorem assignHigherOrder_secures {ctx : CallerContext} {organization : Organization}
    {input : Backend.AssignInput} {higherId : ImplementationId} {higher : Implementation}
    {lowerId : ImplementationId} (hinput : input.reference = some reference)
    (hne : reference ≠ "") (hk : w.db.callerOf? key = some k) :
    (Backend.assignHigherOrder S ctx organization input higherId higher lowerId k).Secures (exec S)
      Grows (Answers key reference) w := by
  refine any_secures (.issue trivial) (fun _ w₁ hw₁ => found_secures (fun lower => found_secures
    (fun lowerAction => any_secures (.issue trivial) (fun _ w₂ hw₂ => found_secures
      (fun available => ?_) answers_error) answers_error) answers_error) answers_error)
    answers_error
  split
  · exact fun w' _ => answers_error _ w'
  refine any_secures resolves_noAgentRow.buildDependencyDict (fun higherDependencies w₃ hw₃ =>
    any_secures resolves_noAgentRow.liftProjection (fun lowerArgs w₄ hw₄ =>
    any_secures resolves_noAgentRow.liftProjection (fun lowerDependencies w₅ hw₅ => ?_)
      answers_error) answers_error) answers_error
  rw [referenceFor_eq hinput hne]
  have hk₅ := hw₅.callers (hw₄.callers (hw₃.callers (hw₂.callers (hw₁.callers hk))))
  refine storeTask_secures (fun wrapper w₆ hw₆ hwrapper => ?_) answers_error
  have hnamed : Named key reference wrapper w₆ :=
    named_of_stored (hw₆.callers hk₅) rfl rfl hwrapper
  refine any_secures (.issue trivial) (fun _ w₇ hw₇ =>
    storeTask_secures (fun child w₈ hw₈ _ => ?_) answers_error) answers_error
  exact dispatch_secures (p := .ret ()) trivial ((hnamed.grows hw₇).grows hw₈)

theorem assign_secures {ctx : CallerContext} {organization : Organization}
    {input : Backend.AssignInput} (hctx : ctx.organization = some organization)
    (hkey : ctx.client = some key.client ∧ ctx.user = key.user ∧ organization = key.organization)
    (hinput : input.reference = some reference) (hne : reference ≠ "") :
    (Backend.assign S ctx input).Secures (exec S) Grows (Answers key reference) w := by
  obtain ⟨hclient, huser, rfl⟩ := hkey
  have hcaller : Backend.getCallerForContext ctx key.organization =
      Prog.issue (L := Statements) (.getOrCreateCaller key) := by
    rw [Backend.getCallerForContext, hclient, huser]
  simp only [Backend.assign, hctx, bind_eq, hcaller]
  refine caller_secures fun k w₁ hw₁ hk => ?_
  refine any_secures resolves_noAgentRow.resolve (fun target w₂ hw₂ => ?_) answers_error
  split
  · exact assignHigherOrder_secures hinput hne (hw₂.callers hk)
  refine any_secures (.issue trivial) (fun _ w₃ hw₃ => found_secures (fun _ => found_secures
    (fun action => ?_) answers_error) answers_error) answers_error
  rw [referenceFor_eq hinput hne, ret_bind]
  have hk₃ := hw₃.callers (hw₂.callers hk)
  have hdispatch : ∀ dependencies w₄, Grows w₃ w₄ → ((Backend.storeTask
      (Backend.plainTask S input target k reference dependencies)).bind
        fun task => (Backend.mintToken task ctx).bind fun token =>
        (broadcast target.implementation.agent (.assign {
          task := task
          args := input.args
          user := ctx.user.sub
          org := key.organization.slug
          reference := some reference
          capture := input.capture.getD false
          resolution := none
          interface := target.implementation.interface
          action := action.hash
          implementation := target.id
          token := token })).bind fun _ =>
        (Prog.forEach (fun hook => if hook.kind = .init then .fail .validationError else .ret ())
          input.hooks).bind fun _ => .ret task).Secures (exec S) Grows
        (Answers key reference) w₄ := by
    intro dependencies w₄ hw₄
    refine storeTask_secures (fun task w₅ hw₅ htask => ?_) answers_error
    refine dispatch_secures ?_ (named_of_stored (hw₅.callers (hw₄.callers hk₃)) rfl rfl htask)
    refine Issues.compositional.forEach fun hook _ => ?_
    split <;> trivial
  cases target.dependencyDict with
  | some dependencies => exact hdispatch dependencies w₃ ((grows S).refl w₃)
  | none => exact any_secures resolves_noAgentRow.buildDependencyDict hdispatch answers_error

/-- What an AssignRequest is answered names a task of its caller, under its reference. -/
def Correct (agent : AgentId) (reference : String) (r : Except Error (TaskId × Bool))
    (w : World) : Prop :=
  ∀ id created, r = .ok (id, created) →
    ∃ row, w.db.agents.get agent = some row ∧ Named (identity row) reference id w

theorem correct_error {agent : AgentId} (e : Error) (w : World) :
    Correct agent reference (.error e) w := nofun

theorem callerAssignSync_secures {agent : AgentId} {input : Backend.AssignInput}
    (hne : reference ≠ "") : (Backend.callerAssignSync S agent reference input).Secures (exec S)
      Grows (Correct agent reference) w := by
  intro w₁ hw₁ i
  show ((orDoesNotExist "Agent" (w₁.db.agents.get agent)).bind _).Secures _ _ _ w₁
  cases hg : w₁.db.agents.get agent with
  | none => exact fun w' _ => correct_error _ w'
  | some row =>
    have hcorrect : ∀ {id created w'}, Grows w₁ w' → Named (identity row) reference id w' →
        Secures (ε := Error) (exec S) Grows (Correct agent reference) (.ret (id, created)) w' := by
      rintro id created w' hw' hnamed w'' hw'' _ _ ⟨⟩
      obtain ⟨row', hg', hkey⟩ := ((grows S).trans hw' hw'').agent hg
      exact ⟨row', hg', hkey ▸ hnamed.grows hw''⟩
    refine caller_secures fun k w₂ hw₂ hk => ?_
    intro w₃ hw₃ i
    have hw₁₃ := (grows S).trans hw₂ hw₃
    dsimp only [exec]
    cases hans : (Query.taskByReference k reference).eval S i w₃.db with
    | some existing =>
      obtain ⟨⟨t, task⟩, hhead, rfl⟩ := Option.map_eq_some_iff.mp hans
      obtain ⟨ht, hp⟩ := Table.mem_select.mp (List.mem_of_mem_head? hhead)
      simp only [Bool.and_eq_true, decide_eq_true_eq] at hp
      exact hcorrect hw₁₃ ⟨k, task, hw₃.callers hk, ht, hp.1, hp.2⟩
    | none =>
      rw [ret_bind]
      dsimp only
      split
      · exact fun w' _ => correct_error _ w'
      refine any_secures (.issue trivial) (fun roles w₄ hw₄ => ?_) correct_error
      refine Secures.bind (grows S) (P := fun r w' => Grows w₁ w' ∧
        Answers (identity row) reference r w') ?_ (fun id w₅ h => ?_) fun e w₅ _ =>
          correct_error e w₅
      · have hanswers : (Backend.assign S ⟨row.user, some row.client, some row.organization, roles⟩
            { input with reference := some reference }).Secures (exec S) Grows
            (Answers (identity row) reference) w₄ :=
          assign_secures rfl ⟨rfl, rfl, rfl⟩ rfl hne
        exact (Secures.of_issues (grows S) assigns_noAgentRow.assign).and hanswers
          fun r w' h h' => ⟨(grows S).trans ((grows S).trans hw₁₃ hw₄) h, h'⟩
      · exact hcorrect h.1 (h.2 id rfl)

/-! ## One task for each reference -/

/-- The caller has a task of the row's reference. -/
def taken (db : Database) (row : Task) : Bool :=
  row.caller.any fun caller => !(db.tasks.select fun _ task =>
    task.caller = some caller && task.reference = row.reference).isEmpty

/-- A caller's reference is that of at most one task. -/
def Identifies (db : Database) : Prop :=
  ∀ t task, db.tasks.get t = some task → ∀ t' task', db.tasks.get t' = some task' →
    task.caller.isSome = true → task'.caller = task.caller → task'.reference = task.reference →
      t' = t

/-- A task is stored only where its caller has none of the reference. -/
def Fresh (db : Database) : Stmt → Prop
  | .task (.create row) => db.admits row = true → taken db row = false
  | _ => True

instance (db : Database) : (c : Stmt) → Decidable (Fresh db c)
  | .task (.create row) => inferInstanceAs (Decidable (db.admits row = true → _ = false))
  | .task (.createEvent _) => isTrue trivial
  | .task (.save ..) => isTrue trivial
  | .task (.claimTransition ..) => isTrue trivial
  | .read _ => isTrue trivial
  | .lease _ => isTrue trivial
  | .agent _ => isTrue trivial
  | .getOrCreateCaller _ => isTrue trivial
  | .state _ => isTrue trivial
  | .deliver _ => isTrue trivial
  | .timer _ => isTrue trivial

theorem taken_iff {db : Database} {row : Task} : taken db row = true ↔
    ∃ t task, db.tasks.get t = some task ∧ row.caller.isSome = true ∧ task.caller = row.caller ∧
      task.reference = row.reference := by
  cases hc : row.caller with
  | none => simp [taken, hc]
  | some caller =>
    simp only [taken, hc, Option.any_some, Bool.not_eq_true', List.isEmpty_eq_false_iff_exists_mem]
    constructor
    · rintro ⟨⟨t, task⟩, hm⟩
      obtain ⟨hg, hp⟩ := Table.mem_select.mp hm
      simp only [Bool.and_eq_true, decide_eq_true_eq] at hp
      exact ⟨t, task, hg, rfl, hp.1, hp.2⟩
    · rintro ⟨t, task, hg, _, hcaller, href⟩
      exact ⟨(t, task), Table.mem_select.mpr ⟨hg, by simp [hcaller, href]⟩⟩

theorem evolves_pair {task task' : Task} (h : task.Evolves task') :
    task'.caller = task.caller ∧ task'.reference = task.reference :=
  ⟨h.caller_eq, by rw [h.same]⟩

/-- One statement: the references still identify the tasks just when they did and it stores no
second task of one. -/
theorem identifies_exec {c : Stmt} :
    Identifies (exec S i c w).2.db ↔ Identifies w.db ∧ Fresh w.db c := by
  constructor
  · intro h
    refine ⟨fun t task hg t' task' hg' hsome hcaller href => ?_, ?_⟩
    · obtain ⟨row, hrow, he⟩ := evolves_exec (S := S) (i := i) (c := c) hg
      obtain ⟨row', hrow', he'⟩ := evolves_exec (S := S) (i := i) (c := c) hg'
      obtain ⟨hk, hr⟩ := evolves_pair he
      obtain ⟨hk', hr'⟩ := evolves_pair he'
      exact h t row hrow t' row' hrow' (by rw [hk]; exact hsome) (by rw [hk, hk', hcaller])
        (by rw [hr, hr', href])
    · cases c with
      | task s =>
        cases s with
        | create row =>
          intro hadmits
          by_contra htaken
          obtain ⟨t, task, hg, hsome, hcaller, href⟩ :=
            taken_iff.mp (Bool.eq_true_of_not_eq_false htaken)
          obtain ⟨row', hrow', he⟩ :=
            evolves_exec (S := S) (i := i) (c := .task (.create row)) hg
          obtain ⟨hk, hr⟩ := evolves_pair he
          have hnew : (exec S i (.task (.create row)) w).2.db.tasks.get w.db.tasks.next =
              some row := by
            simp only [exec, TaskStmt.exec, if_pos hadmits]
            exact Table.get_insert_next
          have ht := h _ row hnew t row' hrow' hsome (hk.trans hcaller) (hr.trans href)
          rw [ht, Table.get_next] at hg
          cases hg
        | _ => trivial
      | _ => trivial
  · rintro ⟨h, hfresh⟩ t row hrow t' row' hrow' hsome hcaller href
    obtain ⟨task, hg, he⟩ | ⟨rfl, hadmits, rfl⟩ := get_exec_cases hrow
    · obtain ⟨hk, hr⟩ := evolves_pair he
      obtain ⟨task', hg', he'⟩ | ⟨rfl, hadmits, rfl⟩ := get_exec_cases hrow'
      · obtain ⟨hk', hr'⟩ := evolves_pair he'
        exact h t task hg t' task' hg' (by rw [← hk]; exact hsome) (by rw [← hk, ← hk', hcaller])
          (by rw [← hr, ← hr', href])
      · have htaken := taken_iff.mpr ⟨t, task, hg, by rw [hcaller]; exact hsome,
          by rw [hcaller, hk], by rw [href, hr]⟩
        exact absurd htaken (by rw [hfresh hadmits]; exact Bool.false_ne_true)
    · obtain ⟨task', hg', he'⟩ | ⟨_, _, rfl⟩ := get_exec_cases hrow'
      · obtain ⟨hk', hr'⟩ := evolves_pair he'
        have htaken := taken_iff.mpr ⟨t', task', hg', hsome, by rw [← hk', hcaller],
          by rw [← hr', href]⟩
        exact absurd htaken (by rw [hfresh hadmits]; exact Bool.false_ne_true)
      · rfl

/-! ## Requests side by side -/

/-- What comes in over the sockets of the agents, and from the server's timers. -/
inductive SocketCall where
  | assignRequest (agent : AgentId) (reference : String) (input : Backend.AssignInput)
  | control (agent : AgentId) (op : Backend.ControlOp) (id : TaskId)
  | task (c : TaskCall)

/-- The handler, with what an AssignRequest is answered. -/
def SocketCall.respond (S : Settings) : SocketCall → Handler (Option (TaskId × Bool))
  | assignRequest agent reference input =>
    (Backend.callerAssignSync S agent reference input).bind fun answer => .ret (some answer)
  | control agent op id => (Backend.callerControlSync agent op id).bind fun _ => .ret none
  | task c => (c.code S).bind fun _ => .ret none

abbrev Conf := Sys Statements Error (Option (TaskId × Bool)) Nat World

/-- Process `p` handles call `p`. -/
def serve (S : Settings) (calls : Nat → SocketCall) (w : World) : Conf :=
  ⟨w, fun p => (calls p).respond S⟩

/-- Where the step stores a task, the existence check of its caller and reference would still find
none. -/
def CheckHolds (c : Conf) (e : Nat × Input) : Prop :=
  ∀ st ∈ (c.procs e.1).next?, Fresh c.shared.db st

instance (c : Conf) (e : Nat × Input) : Decidable (CheckHolds c e) :=
  inferInstanceAs (Decidable (∀ st ∈ (c.procs e.1).next?, Fresh c.shared.db st))

/-- What process `p` has answered an AssignRequest. -/
def answerOf (c : Conf) (p : Nat) : Option (TaskId × Bool) :=
  match c.procs p with
  | .ret answer => answer
  | _ => none

theorem answerOf_eq_some {c : Conf} {p : Nat} {answer : TaskId × Bool}
    (h : answerOf c p = some answer) : c.procs p = .ret (some answer) := by
  unfold answerOf at h
  split at h
  · rename_i hp
    rw [hp, h]
  · cases h

/-- Process `p` has answered an AssignRequest of the caller with this task. -/
def Answered (calls : Nat → SocketCall) (c : Conf) (p : Nat) (key : AgentIdentity)
    (reference : String) (id : TaskId) : Prop :=
  ∃ agent input row created, calls p = .assignRequest agent reference input ∧
    c.shared.db.agents.get agent = some row ∧ identity row = key ∧
    answerOf c p = some (id, created)

/-- All answers to the requests of one caller with one reference name one task. -/
def OneAnswer (calls : Nat → SocketCall) (c : Conf) : Prop :=
  ∀ key reference, reference ≠ "" → ∀ p q id id',
    Answered calls c p key reference id → Answered calls c q key reference id' → id = id'

theorem respond_noAgentRow (c : SocketCall) :
    Prog.Issues (L := Statements) Stmt.NoAgentRow (c.respond S) := by
  cases c with
  | assignRequest agent reference input =>
    exact Issues.compositional.bind assigns_noAgentRow.callerAssignSync
      fun _ => Issues.compositional.ret _
  | control agent op id =>
    refine Issues.compositional.bind (Backend.callerControlSync_built Issues.compositional
      (fun _ => .issue trivial) (fun _ => .issue trivial) fun target => ?_)
      fun _ => Issues.compositional.ret _
    exact Issues.compositional.bind (.issue trivial) fun _ =>
      Issues.compositional.bind (createEvent_built Issues.compositional (.issue trivial)) fun _ =>
      broadcast_built Issues.compositional (.issue trivial) (.issue trivial) (.issue trivial)
  | task c =>
    exact Issues.compositional.bind (c.aside.mono fun _ h => h.noAgentRow)
      fun _ => Issues.compositional.ret _

/-- What process `p` is to end with. -/
def Upholds (calls : Nat → SocketCall) (p : Nat)
    (r : Except Error (Option (TaskId × Bool))) (w : World) : Prop :=
  ∀ agent reference input, calls p = .assignRequest agent reference input → reference ≠ "" →
    ∀ id created, r = .ok (some (id, created)) →
      ∃ row, w.db.agents.get agent = some row ∧ Named (identity row) reference id w

theorem respond_secures {calls : Nat → SocketCall} {p : Nat} :
    ((calls p).respond S).Secures (exec S) Grows (Upholds calls p) w := by
  -- a call that is no AssignRequest, or one without a reference, is asked for nothing
  have hnone : (∀ agent reference input, calls p = .assignRequest agent reference input →
      reference = "") → ∀ c : SocketCall, (c.respond S).Secures (exec S) Grows (Upholds calls p) w :=
    fun hcall c => (Secures.of_issues (grows S) (respond_noAgentRow c)).mono
      fun _ _ _ agent reference input h hne => absurd (hcall agent reference input h) hne
  cases hc : calls p with
  | control agent op id => exact hnone (by rintro _ _ _ h; cases hc.symm.trans h) (.control agent op id)
  | task c => exact hnone (by rintro _ _ _ h; cases hc.symm.trans h) (.task c)
  | assignRequest agent reference input =>
    by_cases hne : reference = ""
    · exact hnone (by rintro _ _ _ h; cases hc.symm.trans h; exact hne) (.assignRequest ..)
    refine (callerAssignSync_secures hne).bind (grows S) (fun answer w₁ h w₂ hw₂ => ?_)
      fun e w₁ _ _ _ _ _ _ _ _ => nofun
    rintro _ _ _ hcall _ id created ⟨⟩
    cases hc.symm.trans hcall
    obtain ⟨row, hg, hnamed⟩ := h id created rfl
    obtain ⟨row', hg', hkey⟩ := hw₂.agent hg
    exact ⟨row', hg', hkey ▸ hnamed.grows hw₂⟩

theorem identifies_step {c : Conf} {e : Nat × Input} :
    Identifies (c.step (exec S) e).shared.db ↔ Identifies c.shared.db ∧ CheckHolds c e := by
  unfold CheckHolds
  cases hp : c.procs e.1 with
  | ret a => simp [Sys.step, hp, Prog.next?]
  | fail x => simp [Sys.step, hp, Prog.next?]
  | stmt st k =>
    rw [Sys.step_stmt hp, Sys.put_shared, identifies_exec]
    simp [Prog.next?]

theorem identifies_run {c : Conf} {sched : List (Nat × Input)} :
    Identifies (c.run (exec S) sched).shared.db ↔
      Identifies c.shared.db ∧ Along (Sys.step (exec S)) CheckHolds c sched := by
  induction sched generalizing c with
  | nil => exact (and_iff_left trivial).symm
  | cons e sched ih =>
    have hrun := ih (c := c.step (exec S) e)
    rw [identifies_step, and_assoc] at hrun
    exact hrun

/-- Where references identify tasks, the answers to one of them name one task. -/
theorem oneAnswer_of_identifies {calls : Nat → SocketCall} {sched : List (Nat × Input)}
    (h : Identifies ((serve S calls w).run (exec S) sched).shared.db) :
    OneAnswer calls ((serve S calls w).run (exec S) sched) := by
  obtain ⟨_, hsecures⟩ := Sys.run_secures (c := serve S calls w) (grows S)
    (Q := Upholds calls) (fun p => respond_noAgentRow (calls p)) (fun p => respond_secures) sched
  have hnamed : ∀ {key reference p id}, reference ≠ "" →
      Answered calls ((serve S calls w).run (exec S) sched) p key reference id →
      Named key reference id ((serve S calls w).run (exec S) sched).shared := by
    rintro key reference p id hne ⟨agent, input, row, created, hcall, hg, rfl, hret⟩
    have hp := hsecures p
    rw [answerOf_eq_some hret] at hp
    obtain ⟨row', hg', h⟩ := hp _ ((grows S).refl _) agent reference input hcall hne id created rfl
    cases hg.symm.trans hg'
    exact h
  intro key reference hne p q id id' hanswered hanswered'
  obtain ⟨k, task, hk, hg, hcaller, href⟩ := hnamed hne hanswered
  obtain ⟨k', task', hk', hg', hcaller', href'⟩ := hnamed hne hanswered'
  cases hk.symm.trans hk'
  exact h id' task' hg' id task hg (by rw [hcaller']; rfl) (by rw [hcaller, hcaller'])
    (by rw [href, href'])

/-- **A reference identifies one task**, and every answer to it names that task, just when no task is
stored after its existence check has gone stale. -/
theorem reference_identifies_iff (S : Settings) (calls : Nat → SocketCall) (w : World)
    (sched : List (Nat × Input)) (hw : Identifies w.db) :
    (Identifies ((serve S calls w).run (exec S) sched).shared.db ∧
      OneAnswer calls ((serve S calls w).run (exec S) sched)) ↔
    Along (Sys.step (exec S)) CheckHolds (serve S calls w) sched := by
  have hiff : Identifies ((serve S calls w).run (exec S) sched).shared.db ↔ Identifies w.db ∧
      Along (Sys.step (exec S)) CheckHolds (serve S calls w) sched := identifies_run
  constructor
  · exact fun h => (hiff.mp h.1).2
  · intro halong
    have hfinal := hiff.mpr ⟨hw, halong⟩
    exact ⟨hfinal, oneAnswer_of_identifies hfinal⟩

section Resent

/-- Agent 1 is live and runs task 1, which its own caller assigned. -/
def workingWorld : World :=
  let base := Virtual.wrapperWorld false
  { base with db := { base.db with
      callers := Table.empty.insert ⟨⟨1, "client"⟩, ⟨1, "user"⟩, ⟨1, "org"⟩⟩
      tasks := Table.empty.insert {
        implementation := some 1, action := 1, reference := "root", agent := 1, caller := some 1
        latestEventKind := .started, latestInstructKind := .assign } } }

theorem identifies_workingWorld : Identifies workingWorld.db := by
  intro t task hg t' task' hg' _ _ _
  obtain ⟨rfl, _⟩ | ⟨_, hnone⟩ := Table.get_insert_cases hg
  · obtain ⟨rfl, _⟩ | ⟨_, hnone⟩ := Table.get_insert_cases hg'
    · rfl
    · cases hnone
  · cases hnone

/-- One AssignRequest and its resends. -/
def resent : Nat → SocketCall := fun _ =>
  .assignRequest 1 "job" { implementation := some 1, parent := some 1 }

/-- The steps that the processes take, one stretch after the other. -/
def stretches (l : List (Nat × Nat)) : List (Nat × Input) :=
  l.flatMap fun p => List.replicate p.2 (p.1, {})

/-- The resend comes in when the first one is answered. -/
def resentInTurn : Conf := (serve {} resent workingWorld).run (exec {}) (stretches [(0, 13), (1, 3)])

theorem reference_identifies_resentInTurn :
    (Identifies resentInTurn.shared.db ∧ OneAnswer resent resentInTurn) ∧
    answerOf resentInTurn 0 = some (2, true) ∧ answerOf resentInTurn 1 = some (2, false) :=
  ⟨(reference_identifies_iff {} resent workingWorld (stretches [(0, 13), (1, 3)])
    identifies_workingWorld).mpr (by decide +kernel), by decide +kernel, by decide +kernel⟩

/-- The resend makes its existence check before the first one stores the task. -/
def resentAtOnce : Conf :=
  (serve {} resent workingWorld).run (exec {}) (stretches [(0, 3), (1, 3), (0, 10), (1, 10)])

theorem resend_creates_second_task :
    ((resentAtOnce.shared.db.tasks.select fun _ task =>
      task.caller = some 1 && task.reference = "job").map Prod.fst) = [2, 3] ∧
    answerOf resentAtOnce 0 = some (2, true) ∧ answerOf resentAtOnce 1 = some (3, true) := by
  decide +kernel

end Resent

/-! ## Requests in turn -/

/-- Some task of the caller has the reference. -/
def has (db : Database) (x : CallerId × String) : Bool :=
  !(db.tasks.select fun _ task => task.caller = some x.1 && task.reference = x.2).isEmpty

/-- Whom a row belongs to, and under which reference. -/
def pairOf (row : Task) : Option (CallerId × String) := row.caller.map fun k => (k, row.reference)

/-- A run, with what each process has looked for in vain and has not stored yet. -/
structure Looking where
  conf : Conf
  own : Nat → Option (CallerId × String) := fun _ => none

def ownAfter (db : Database) (own : Option (CallerId × String)) :
    Stmt → Option (CallerId × String)
  | .read (.taskByReference caller reference) =>
    if has db (caller, reference) then none else some (caller, reference)
  | .task (.create _) => none
  | _ => own

def Looking.next (S : Settings) (l : Looking) (e : Nat × Input) : Looking where
  conf := l.conf.step (exec S) e
  own := match (l.conf.procs e.1).next? with
    | none => l.own
    | some st => Function.update l.own e.1 (ownAfter l.conf.shared.db (l.own e.1) st)

/-- Nobody looks for what another process is about to store, and a task that its process has not
looked for, under a made-up reference, is the first of its reference. -/
def InTurn (l : Looking) (e : Nat × Input) : Prop :=
  ∀ st ∈ (l.conf.procs e.1).next?,
    (∀ caller reference, st = .read (.taskByReference caller reference) →
      ∀ q, q ≠ e.1 → l.own q ≠ some (caller, reference)) ∧
    ∀ row x, st = .task (.create row) → pairOf row = some x → l.own e.1 ≠ some x →
      has l.conf.shared.db x = false ∧ ∀ q, l.own q ≠ some x

/-- What is looked for in vain is still missing, and by one process only. -/
structure Alone (l : Looking) : Prop where
  missing : ∀ p x, l.own p = some x → has l.conf.shared.db x = false
  apart : ∀ p q x, l.own p = some x → l.own q = some x → p = q

theorem has_iff {db : Database} {x : CallerId × String} : has db x = true ↔
    ∃ t task, db.tasks.get t = some task ∧ pairOf task = some x := by
  simp only [has, Bool.not_eq_true', List.isEmpty_eq_false_iff_exists_mem]
  constructor
  · rintro ⟨⟨t, task⟩, hm⟩
    obtain ⟨hg, hp⟩ := Table.mem_select.mp hm
    simp only [Bool.and_eq_true, decide_eq_true_eq] at hp
    exact ⟨t, task, hg, by rw [pairOf, hp.1, hp.2]; rfl⟩
  · rintro ⟨t, task, hg, hpair⟩
    obtain ⟨k, hk, rfl⟩ := Option.map_eq_some_iff.mp hpair
    exact ⟨(t, task), Table.mem_select.mpr ⟨hg, by simp [hk]⟩⟩

/-- What is missing is missing after a statement that does not store it. -/
theorem has_exec {c : Stmt} {x : CallerId × String} (h : has w.db x = false)
    (hc : ∀ row, c = .task (.create row) → pairOf row ≠ some x) :
    has (exec S i c w).2.db x = false := by
  rw [← Bool.not_eq_true, has_iff]
  rintro ⟨t, task', hg', hpair⟩
  obtain ⟨task, hg, he⟩ | ⟨hcreate, _, _⟩ := get_exec_cases hg'
  · obtain ⟨hk, hr⟩ := evolves_pair he
    rw [pairOf, hk, hr] at hpair
    rw [has_iff.mpr ⟨t, task, hg, hpair⟩] at h
    cases h
  · exact hc task' hcreate hpair

theorem ownAfter_cases {db : Database} {own : Option (CallerId × String)} {c : Stmt}
    {x : CallerId × String} (h : ownAfter db own c = some x) :
    (∀ row, c ≠ .task (.create row)) ∧
      ((c = .read (.taskByReference x.1 x.2) ∧ has db x = false) ∨ own = some x) := by
  cases c with
  | read q =>
    refine ⟨fun row hrow => (by cases hrow), ?_⟩
    cases q with
    | taskByReference caller reference =>
      simp only [ownAfter] at h
      split at h
      · cases h
      · rename_i hnone
        cases h
        exact .inl ⟨rfl, Bool.eq_false_of_not_eq_true hnone⟩
    | _ => exact .inr h
  | task c =>
    cases c with
    | create row => cases h
    | _ => exact ⟨fun row hrow => (by cases hrow), .inr h⟩
  | _ => exact ⟨fun row hrow => (by cases hrow), .inr h⟩

variable {l : Looking} {e : Nat × Input}

theorem Looking.next_ended (h : (l.conf.procs e.1).next? = none) : l.next S e = l := by
  have hconf : l.conf.step (exec S) e = l.conf := by
    cases hp : l.conf.procs e.1 with
    | ret a => simp [Sys.step, hp]
    | fail x => simp [Sys.step, hp]
    | stmt st k =>
      rw [hp] at h
      cases h
  rw [Looking.next, hconf, h]

theorem Alone.next (h : Alone l) (hturn : InTurn l e) : Alone (l.next S e) := by
  cases hp : l.conf.procs e.1 with
  | ret a =>
    rw [Looking.next_ended (by rw [hp]; rfl)]
    exact h
  | fail x =>
    rw [Looking.next_ended (by rw [hp]; rfl)]
    exact h
  | stmt st k =>
    obtain ⟨hlook, hstore⟩ := hturn st (by rw [hp]; rfl)
    have hdb : (l.next S e).conf.shared = (exec S e.2 st l.conf.shared).2 := by
      rw [Looking.next, Sys.step_stmt hp, Sys.put_shared]
    have hown : (l.next S e).own =
        Function.update l.own e.1 (ownAfter l.conf.shared.db (l.own e.1) st) := by
      rw [Looking.next, hp]
      rfl
    have hself : (l.next S e).own e.1 = ownAfter l.conf.shared.db (l.own e.1) st := by
      rw [hown, Function.update_self]
    have hothers : ∀ q, q ≠ e.1 → (l.next S e).own q = l.own q := fun q hq => by
      rw [hown, Function.update_of_ne hq]
    -- what the scheduled process looks for now, nobody else does
    have hone : ∀ q x, (l.next S e).own e.1 = some x → (l.next S e).own q = some x → q = e.1 := by
      intro q x hx hq
      by_contra hne
      rw [hself] at hx
      rw [hothers q hne] at hq
      obtain ⟨_, ⟨hread, _⟩ | hkept⟩ := ownAfter_cases hx
      · exact hlook _ _ hread q hne hq
      · exact hne (h.apart q e.1 x hq hkept)
    refine ⟨fun p x hx => ?_, fun p q x hx hq => ?_⟩
    · rw [hdb]
      by_cases hpe : p = e.1
      · rw [hpe, hself] at hx
        obtain ⟨hnostore, ⟨_, hnone⟩ | hkept⟩ := ownAfter_cases hx
        · exact has_exec hnone fun row hrow => absurd hrow (hnostore row)
        · exact has_exec (h.missing _ x hkept) fun row hrow => absurd hrow (hnostore row)
      · rw [hothers p hpe] at hx
        refine has_exec (h.missing p x hx) fun row hrow hpair => ?_
        by_cases hmine : l.own e.1 = some x
        · exact hpe (h.apart p e.1 x hx hmine)
        · exact (hstore row x hrow hpair hmine).2 p hx
    · by_cases hpe : p = e.1
      · rw [hpe] at hx ⊢
        exact (hone q x hx hq).symm
      · by_cases hqe : q = e.1
        · rw [hqe] at hq ⊢
          exact hone p x hq hx
        · rw [hothers p hpe] at hx
          rw [hothers q hqe] at hq
          exact h.apart p q x hx hq

/-- A process that has looked in vain stores the first task of its reference. -/
theorem Alone.checkHolds (h : Alone l) (hturn : InTurn l e) : CheckHolds l.conf e := by
  intro st hst
  obtain ⟨_, hstore⟩ := hturn st hst
  cases st with
  | task c =>
    cases c with
    | create row =>
      intro _
      cases hk : row.caller with
      | none => rw [taken, hk]; rfl
      | some k =>
        have hpair : pairOf row = some (k, row.reference) := by rw [pairOf, hk]; rfl
        rw [taken, hk]
        by_cases hmine : l.own e.1 = some (k, row.reference)
        · exact h.missing e.1 _ hmine
        · exact (hstore row _ rfl hpair hmine).1
    | _ => trivial
  | _ => trivial

theorem checkHolds_of_inTurn {sched : List (Nat × Input)} (h : Alone l)
    (hturn : Along (Looking.next S) InTurn l sched) :
    Along (Sys.step (exec S)) CheckHolds l.conf sched := by
  induction sched generalizing l with
  | nil => trivial
  | cons e sched ih => exact ⟨h.checkHolds hturn.1, ih (h.next hturn.1) hturn.2⟩

/-- **Requests in turn.** Where between a request's check and its store no other request looks for
the same, and made-up references are new, a reference identifies one task. -/
theorem identifies_of_inTurn (S : Settings) (calls : Nat → SocketCall) (w : World)
    (sched : List (Nat × Input)) (hw : Identifies w.db)
    (hturn : Along (Looking.next S) InTurn ⟨serve S calls w, fun _ => none⟩ sched) :
    Identifies ((serve S calls w).run (exec S) sched).shared.db ∧
      OneAnswer calls ((serve S calls w).run (exec S) sched) := by
  have hstart : Alone ⟨serve S calls w, fun _ => none⟩ :=
    ⟨fun _ _ h => (by cases h), fun _ _ _ h => (by cases h)⟩
  have hfinal := identifies_run.mpr ⟨hw, checkHolds_of_inTurn hstart hturn⟩
  exact ⟨hfinal, oneAnswer_of_identifies hfinal⟩

end Reference
end Rekuest
