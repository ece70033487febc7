import Rekuest.Tasks.Cascade

/-!
# Rekuest.Tasks.Assign

What an assign makes of the world when it runs alone.

* `Database.Virtual`: the wrappers of `_assign_higher_order`: tasks on a higher-order
  implementation that are nobody's child.
* `yields_resolve`: the implementation an assign resolves to is the stored one, whatever happens
  between its reads. `wp_resolve`: so it is when it runs alone.
* `TakesWork I`: the invariant survives a new task, a new wrapper with its child, and an Assign
  for a task that is not virtual.
* `TakesWork.postmanCall`: then it survives every assign and every control request.
-/

namespace Rekuest

open Interleave Interleave.Prog

/-- The world with one more task. -/
def World.withTask (w : World) (row : Task) : World :=
  { w with db := { w.db with tasks := w.db.tasks.insert row } }

/-- A wrapper that `_assign_higher_order` made. -/
def Database.Virtual (db : Database) (task : Task) : Prop := db.IsWrapper task ∧ task.root = none

/-- The task is there, and it is not virtual. -/
def Database.Runs (db : Database) (t : TaskId) : Prop :=
  ∃ task, db.tasks.get t = some task ∧ ¬ db.Virtual task

variable {S : Settings} {ok : Input → Stmt → World → Prop} {w : World} {α β : Type}

theorem isRead_exec (i : Input) (c : Stmt) (w : World) (hc : c.IsRead) : (exec S i c w).2 = w := by
  cases c with
  | read q => rfl
  | _ => exact hc.elim

theorem wp_reads {p : Handler α} {Q : Except Error α → World → Prop}
    (hp : Prog.Issues (L := Statements) Stmt.IsRead p) (h : ∀ r, Q r w) :
    wp (exec S) ok p Q w :=
  Issues.wp_readOnly isRead_exec hp h

theorem wp_bind_reads {p : Handler α} {f : α → Handler β} {Q : Except Error β → World → Prop}
    (hp : Prog.Issues (L := Statements) Stmt.IsRead p) (herr : ∀ e, Q (.error e) w)
    (h : ∀ a, wp (exec S) ok (f a) Q w) : wp (exec S) ok (p.bind f) Q w := by
  refine wp_bind.mpr (wp_reads hp ?_)
  rintro (e | a)
  · exact herr e
  · exact h a

/-- Whether the query mints a token. -/
def Query.mints : Query → Bool
  | .mint .. => true
  | _ => false

namespace Backend

/-! ## Reading -/

/-- The property holds of what a resolution is built from. -/
structure Resolves (Q : (α : Type) → Handler α → Prop) : Prop extends
    Compositional (L := Statements) (ε := Error) Q where
  look : ∀ q : Query, q.mints = false → Q q.Ans (ask q)

namespace Resolves

variable {Q : (α : Type) → Handler α → Prop} (hQ : Resolves Q)
include hQ

theorem found {model : String} {x : Option α} : Q α (orDoesNotExist model x) :=
  orDoesNotExist_built hQ.toCompositional

theorem demandSlot {agent : AgentId} {demand : ActionDemand} :
    Q (String × Json) (demandSlot agent demand) := by
  refine hQ.bind (hQ.look (.implementationsOfKey _ agent) rfl) fun implementations => ?_
  split
  · exact hQ.fail _
  · rename_i implementation
    refine hQ.bind (hQ.look (.dependencies implementation) rfl) fun dependencies => ?_
    split
    · exact hQ.ret _
    · exact hQ.fail _
  · exact hQ.fail _

theorem candidateAgents {organization : Organization} {overwrites : List ResolvedDependency}
    {dep : Dependency} : Q (List AgentId) (candidateAgents organization overwrites dep) := by
  unfold Backend.candidateAgents
  split
  · rename_i overwrite _
    split
    · split
      · exact hQ.look (.appAgents dep.appFilter organization) rfl
      · exact hQ.fail _
    · exact hQ.look (.mappedAgents overwrite.mappedAgents) rfl
  · split
    · exact hQ.look (.appAgents dep.appFilter organization) rfl
    · exact hQ.fail _

theorem viableAgents {dep : Dependency} {agents : List AgentId} :
    Q (List AgentId) (viableAgents dep agents) := by
  have henough : ∀ {few : Prop} [Decidable few] {e : Error} {agents : List AgentId},
      Q (List AgentId) (if few then .fail e else .ret agents) := by
    intro few _ e agents
    split
    · exact hQ.fail _
    · exact hQ.ret _
  unfold Backend.viableAgents
  cases dep.minViableInstances with
  | none => exact hQ.ret _
  | some n =>
    cases dep.maxViableInstances with
    | none => exact henough
    | some m => exact henough

theorem bindDependency {organization : Organization} {overwrites : List ResolvedDependency}
    {dep : Dependency} : Q (String × Json) (bindDependency organization overwrites dep) :=
  hQ.bind hQ.candidateAgents fun _ => hQ.bind hQ.viableAgents fun _ =>
    hQ.bind (hQ.collect fun _ => hQ.bind (hQ.collect fun _ => hQ.demandSlot)
      fun _ => hQ.ret _) fun _ => hQ.ret _

theorem buildDependencyDict {implementation : ImplementationId} {organization : Organization}
    {overwrites : List ResolvedDependency} :
    Q (Dict Json) (buildDependencyDict implementation organization overwrites) :=
  hQ.bind (hQ.look (.dependencies implementation) rfl) fun _ =>
    hQ.bind (hQ.collect fun _ => hQ.bindDependency) fun _ => hQ.ret _

theorem liftProjection {x : Except HigherOrder.ProjectionError α} : Q α (liftProjection x) := by
  match x with
  | .ok a => exact hQ.ret a
  | .error (.keyError key) => exact hQ.fail _
  | .error (.valueError message) => exact hQ.fail _

theorem referenceFor {input : AssignInput} : Q String (referenceFor input) := by
  unfold Backend.referenceFor
  split
  · exact hQ.ret _
  · exact hQ.look .uuid rfl

theorem jsonMember {json : Json} {key : String} : Q Json (jsonMember json key) := by
  unfold Backend.jsonMember
  split
  · split
    · exact hQ.ret _
    · exact hQ.fail _
  · exact hQ.fail _

theorem jsonChoice {json : Json} : Q Json (jsonChoice json) := by
  unfold Backend.jsonChoice
  split
  · rename_i items
    refine hQ.bind (hQ.look (.choice items.length) rfl) fun k => ?_
    split
    · exact hQ.ret _
    · exact hQ.fail _
  · exact hQ.fail _

/-- The stored implementation of an id. -/
theorem stored {id : ImplementationId} {β : Type} {f : Implementation × Option Action → Handler β}
    (hf : ∀ x, Q β (f x)) : Q β ((ask (.implementation id)).bind fun x =>
      (orDoesNotExist "Implementation" x).bind f) :=
  hQ.bind (hQ.look (.implementation id) rfl) fun _ => hQ.bind hQ.found hf

theorem resolveAction {action : ActionId} {name : String} :
    Q Resolved (resolveAction action name) := by
  refine hQ.bind (hQ.look (.availableImplementation action) rfl) fun found => ?_
  split
  · exact hQ.ret _
  · exact hQ.fail _

theorem resolveImplementation {id : ImplementationId} :
    Q Resolved (resolveImplementation id) := by
  refine hQ.stored fun x => ?_
  dsimp only
  split
  · refine hQ.bind (hQ.look (.agentIsAvailable _) rfl) fun _ =>
      hQ.bind hQ.found fun available => ?_
    split
    · exact hQ.ret _
    · exact hQ.fail _
  · exact hQ.ret _

theorem resolveDependency {input : AssignInput} {dependency : String} :
    Q Resolved (resolveDependency input dependency) := by
  unfold Backend.resolveDependency
  split
  · exact hQ.fail _
  split
  · exact hQ.fail _
  rename_i parentId _
  refine hQ.bind (hQ.look (.task parentId) rfl) fun row => hQ.bind hQ.found fun parent => ?_
  split
  · exact hQ.fail _
  refine hQ.bind hQ.jsonChoice fun chosen => ?_
  split
  swap
  · exact hQ.fail _
  split
  · exact hQ.fail _
  · dsimp only
    split
    · exact hQ.fail _
    refine hQ.bind hQ.jsonMember fun implementationId =>
      hQ.bind hQ.jsonMember fun dependencyDict => ?_
    split
    · exact hQ.stored fun _ => hQ.ret _
    · exact hQ.fail _
  · exact hQ.fail _

theorem resolve {organization : Organization} {input : AssignInput} :
    Q Resolved (resolve organization input) := by
  unfold Backend.resolve
  split
  · exact hQ.resolveDependency
  split
  · rename_i id _
    exact hQ.bind (hQ.look (.action id) rfl) fun _ => hQ.bind hQ.found fun _ => hQ.resolveAction
  split
  · exact hQ.resolveImplementation
  split
  · refine hQ.bind (hQ.look (.actionsOfHash _ organization) rfl) fun actions => ?_
    split
    · exact hQ.fail _
    · exact hQ.resolveAction
    · exact hQ.fail _
  · exact hQ.fail _

end Resolves

theorem resolves_isRead :
    Resolves fun _ p => Prog.Issues (L := Statements) Stmt.IsRead p where
  toCompositional := Issues.compositional
  look _ _ := .issue trivial

theorem mintToken_reads {id : TaskId} {ctx : CallerContext} :
    Prog.Issues (L := Statements) Stmt.IsRead (mintToken id ctx) := by
  refine Issues.compositional.bind (.issue trivial) fun token => ?_
  split <;> trivial

/-- An answer that the statement gives in some world with these implementations. -/
def Answered (S : Settings) (implementations : Table Implementation) (c : Stmt) (a : c.Ans) :
    Prop :=
  ∃ i w, w.db.implementations = implementations ∧ (exec S i c w).1 = a

/-- What is resolved is an implementation with what is stored of it. -/
def Stored (implementations : Table Implementation) (target : Resolved) : Prop :=
  implementations.get target.id = some target.implementation

section Stored

variable {implementations : Table Implementation}

/-- The program resolves to what is stored. -/
abbrev YieldsStored (S : Settings) (implementations : Table Implementation) (p : Handler Resolved) :
    Prop :=
  p.Yields (Answered S implementations) (Stored implementations)

theorem yields_found {β : Type} {model : String} {x : Option β} {f : β → Handler Resolved}
    (h : ∀ b, x = some b → YieldsStored S implementations (f b)) :
    YieldsStored S implementations ((orDoesNotExist model x).bind f) := by
  cases x with
  | none => trivial
  | some b => exact h b rfl

/-- The stored implementation of an id, read and returned. -/
theorem yields_storedImplementation {id : ImplementationId}
    {f : Implementation × Option Action → Handler Resolved}
    (h : ∀ impl action, implementations.get id = some impl →
      YieldsStored S implementations (f (impl, action))) :
    YieldsStored S implementations ((ask (.implementation id)).bind fun x =>
      (orDoesNotExist "Implementation" x).bind f) := by
  rintro _ ⟨i, w, rfl, rfl⟩
  refine yields_found fun pair hpair => ?_
  obtain ⟨impl, hg, rfl⟩ := Option.map_eq_some_iff.mp hpair
  exact h impl _ hg

theorem yields_resolveAction {action : ActionId} {name : String} :
    YieldsStored S implementations (resolveAction action name) := by
  rintro answer ⟨i, w, rfl, hans⟩
  cases answer with
  | none => trivial
  | some found =>
    have hhead : (Query.availableImplementation action).eval S i w.db = some found := hans
    exact (Table.mem_select.mp (List.mem_of_mem_head? hhead)).1

theorem yields_resolveImplementation {id : ImplementationId} :
    YieldsStored S implementations (resolveImplementation id) := by
  refine yields_storedImplementation fun impl action hg => ?_
  dsimp only
  split
  · refine yields_bind fun available => yields_bind fun available => ?_
    split
    · exact hg
    · trivial
  · exact hg

theorem yields_resolveDependency {input : AssignInput} {dependency : String} :
    YieldsStored S implementations (resolveDependency input dependency) := by
  unfold resolveDependency
  split
  · trivial
  split
  · trivial
  refine yields_bind fun row => yields_bind fun parent => ?_
  split
  · trivial
  refine yields_bind fun chosen => ?_
  split
  swap
  · trivial
  split
  · trivial
  · dsimp only
    split
    · trivial
    refine yields_bind fun implementationId => yields_bind fun dependencyDict => ?_
    split
    · exact yields_storedImplementation fun impl action hg => hg
    · trivial
  · trivial

theorem yields_resolve {organization : Organization} {input : AssignInput} :
    YieldsStored S implementations (resolve organization input) := by
  unfold resolve
  split
  · exact yields_resolveDependency
  split
  · exact yields_bind fun row => yields_bind fun action => yields_resolveAction
  split
  · exact yields_resolveImplementation
  split
  · refine yields_bind fun actions => ?_
    split
    · trivial
    · exact yields_resolveAction
    · trivial
  · trivial

end Stored

/-- The result is an implementation with what is stored of it, and the world is as it was. -/
def Finds (w : World) : Except Error Resolved → World → Prop :=
  fun r w' => w' = w ∧ ∀ target, r = .ok target →
    w.db.implementations.get target.id = some target.implementation

theorem wp_resolve {organization : Organization} {input : AssignInput} :
    wp (exec S) ok (resolve organization input) (Finds w) w :=
  yields_resolve.wp_readOnly isRead_exec (fun i _ => ⟨i, w, rfl, rfl⟩) resolves_isRead.resolve

/-! ## Writing -/

theorem wp_storeTask {row : Task} {Q : Except Error TaskId → World → Prop}
    (herr : ∀ e, Q (.error e) w)
    (h : w.db.admits row = true → Q (.ok w.db.tasks.next) (w.withTask row)) :
    wp (exec S) ok (storeTask row) Q w := by
  unfold storeTask
  split
  · exact herr _
  refine wp_bind.mpr fun i _ => ?_
  simp only [exec, TaskStmt.exec]
  split
  · rename_i hadmits
    exact h hadmits
  · exact herr _

end Backend

/-! ## What an assign is built from -/

/-- The property holds of what an assign is built from. -/
structure Assigns (Q : (α : Type) → Handler α → Prop) : Prop extends
    Compositional (L := Statements) (ε := Error) Q where
  read : ∀ q : Query, Q q.Ans (ask q)
  caller : ∀ identity, Q CallerId (Prog.issue (L := Statements) (.getOrCreateCaller identity))
  create : ∀ row : Task, (∀ r, row.root = some r → row.parent = some r) →
    Q (Option TaskId) (createTask row)
  push : ∀ agent m, Q Unit (Prog.issue (L := Statements) (.deliver (.push agent (.assign m))))
  post : ∀ agent m, Q Unit (Prog.issue (L := Statements) (.deliver (.post agent (.assign m))))

namespace Assigns

variable {Q : (α : Type) → Handler α → Prop} (hQ : Assigns Q)
include hQ

theorem resolves : Backend.Resolves Q where
  toCompositional := hQ.toCompositional
  look q _ := hQ.read q

theorem mintToken {id : TaskId} {ctx : CallerContext} :
    Q (Option Token) (Backend.mintToken id ctx) := by
  refine hQ.bind (hQ.read (.mint id ctx)) fun token => ?_
  split
  · exact hQ.ret _
  · exact hQ.fail _

theorem found {model : String} {x : Option α} : Q α (orDoesNotExist model x) :=
  orDoesNotExist_built hQ.toCompositional

theorem storeTask {row : Task} (hrow : ∀ r, row.root = some r → row.parent = some r) :
    Q TaskId (Backend.storeTask row) := by
  unfold Backend.storeTask
  split
  · exact hQ.fail _
  · refine hQ.bind (hQ.create row hrow) fun id => ?_
    cases id with
    | none => exact hQ.fail _
    | some id => exact hQ.ret id

theorem broadcast {agent : AgentId} {m : Assign} : Q Unit (broadcast agent (.assign m)) :=
  broadcast_built hQ.toCompositional (hQ.read (.agent agent)) (hQ.push agent m) (hQ.post agent m)

theorem getCallerForContext {ctx : CallerContext} {organization : Organization} :
    Q CallerId (Backend.getCallerForContext ctx organization) := by
  unfold Backend.getCallerForContext
  split
  · exact hQ.caller _
  · exact hQ.fail _

theorem assignHigherOrder {ctx : CallerContext} {organization : Organization}
    {input : Backend.AssignInput} {higherId : ImplementationId} {higher : Implementation}
    {lowerId : ImplementationId} {caller : CallerId} :
    Q TaskId (Backend.assignHigherOrder S ctx organization input higherId higher lowerId
      caller) := by
  refine hQ.bind (hQ.read _) fun _ => hQ.bind hQ.found fun lower => hQ.bind hQ.found fun _ =>
    hQ.bind (hQ.read _) fun _ => hQ.bind hQ.found fun available => ?_
  split
  · exact hQ.fail _
  exact hQ.bind hQ.resolves.buildDependencyDict fun _ =>
    hQ.bind hQ.resolves.liftProjection fun _ =>
    hQ.bind hQ.resolves.liftProjection fun _ =>
    hQ.bind hQ.resolves.referenceFor fun _ =>
    hQ.bind (hQ.storeTask nofun) fun _ => hQ.bind (hQ.read _) fun _ =>
    hQ.bind (hQ.storeTask fun _ => id) fun _ => hQ.bind hQ.mintToken fun _ =>
    hQ.bind hQ.broadcast fun _ => hQ.ret _

theorem assign {ctx : CallerContext} {input : Backend.AssignInput} :
    Q TaskId (Backend.assign S ctx input) := by
  unfold Backend.assign
  split
  · exact hQ.fail _
  refine hQ.bind hQ.getCallerForContext fun caller =>
    hQ.bind hQ.resolves.resolve fun target => ?_
  dsimp only
  split
  · exact hQ.assignHigherOrder
  have hdispatch : ∀ {row : Task} {m : TaskId → Option Token → Assign}, row.root = none → Q TaskId
      ((Backend.storeTask row).bind fun task => (Backend.mintToken task ctx).bind fun token =>
        (Rekuest.broadcast target.implementation.agent (.assign (m task token))).bind fun _ =>
        (Prog.forEach (fun hook => if hook.kind = .init then .fail .validationError else .ret ())
          input.hooks).bind fun _ => .ret task) := fun {row m} hroot =>
    hQ.bind (hQ.storeTask (by rw [hroot]; nofun)) fun task => hQ.bind hQ.mintToken fun _ =>
    hQ.bind hQ.broadcast fun _ => hQ.bind (hQ.forEach fun hook _ => by
      split
      · exact hQ.fail _
      · exact hQ.ret ()) fun _ => hQ.ret task
  refine hQ.bind (hQ.read _) fun _ => hQ.bind hQ.found fun _ => hQ.bind hQ.found fun _ =>
    hQ.bind hQ.resolves.referenceFor fun _ => ?_
  cases target.dependencyDict with
  | some dependencies => exact hdispatch rfl
  | none => exact hQ.bind hQ.resolves.buildDependencyDict fun _ => hdispatch rfl

theorem callerAssignSync {agent : AgentId} {reference : String} {input : Backend.AssignInput} :
    Q (TaskId × Bool) (Backend.callerAssignSync S agent reference input) := by
  refine hQ.bind (hQ.read (.agent agent)) fun _ => hQ.bind hQ.found fun row =>
    hQ.bind (hQ.caller _) fun _ => hQ.bind (hQ.read _) fun existing => ?_
  cases existing with
  | some id => exact hQ.ret _
  | none =>
    dsimp only
    split
    · exact hQ.fail _
    · exact hQ.bind (hQ.read _) fun _ => hQ.bind hQ.assign fun _ => hQ.ret _

/-- Every assign and every control request. -/
theorem postmanCall (htarget : ∀ op target, Q Unit (Backend.controlTarget op target))
    (htimer : ∀ c, Q Unit (Prog.issue (L := Statements) (.timer c)))
    (hattempt : ∀ {p : Handler TaskId}, Q TaskId p → Q (Except Error TaskId) p.attempt)
    {c : PostmanCall} : Q Unit (c.code S) := by
  have hcontrol : ∀ op id, Q TaskId (Backend.requestControl op id) := fun op _ =>
    Backend.requestControl_built hQ.toCompositional hQ.read (htarget op)
  have hcaller : ∀ agent op id, Q TaskId (Backend.callerControlSync agent op id) := fun _ op _ =>
    Backend.callerControlSync_built hQ.toCompositional hQ.read hQ.caller (htarget op)
  cases c with
  | assign ctx input => exact discard_built hQ.toCompositional hQ.assign
  | control op id => exact discard_built hQ.toCompositional (hcontrol op id)
  | callerAssign agent reference input =>
    exact discard_built hQ.toCompositional hQ.callerAssignSync
  | callerControl agent op id => exact discard_built hQ.toCompositional (hcaller agent op id)
  | callerCancel server agent id autoInterrupt =>
    refine discard_built hQ.toCompositional (hQ.bind (hcaller agent .cancel id) fun task => ?_)
    cases autoInterrupt with
    | none => exact hQ.ret _
    | some window => exact hQ.bind (htimer _) fun _ => hQ.ret _
  | escalate id =>
    refine hQ.bind (hQ.read (.task id)) fun row => ?_
    cases row with
    | none => exact hQ.ret ()
    | some task =>
      dsimp only
      split
      · exact hQ.ret ()
      refine hQ.bind (hattempt (hcontrol _ id)) fun answer => ?_
      split
      · exact hQ.ret ()
      · exact hQ.ret ()
      · exact hQ.fail _

end Assigns

/-- What the invariant is asked to survive when work comes in. -/
structure TakesWork (S : Settings) (I : World → Prop) : Prop where
  quiet : ∀ i (c : Stmt) w, c.Quiet → I w → I (exec S i c w).2
  root : ∀ w row, I w → w.db.admits row = true → row.isDone = false → row.root = none →
    I (w.withTask row)
  pair : ∀ w wrapper child, I w → w.db.admits wrapper = true → wrapper.isDone = false →
    wrapper.root = none → w.db.IsWrapper wrapper → child.isDone = false →
    child.parent = some w.db.tasks.next → child.root = some w.db.tasks.next →
    (w.withTask wrapper).db.admits child = true → I ((w.withTask wrapper).withTask child)
  push : ∀ w agent m, I w → w.db.Runs m.task → I (w.delivered agent (.assign m))

namespace TakesWork

variable {I : World → Prop} (hI : TakesWork S I)
include hI

theorem quiet_keeps {p : Handler α} (hp : Prog.Issues (L := Statements) Stmt.Quiet p) :
    Keeps (exec S) ok I p :=
  hp.keeps fun i c w hc _ h => hI.quiet i c w hc h

/-- The token and the Assign of a task that was just stored. -/
theorem wp_handOut {id : TaskId} {ctx : CallerContext} {agent : AgentId}
    {m : Option Token → Assign} {f : Handler TaskId} (hm : ∀ token, (m token).task = id)
    (hf : Prog.Issues (L := Statements) Stmt.Quiet f) (h : I w) (hruns : w.db.Runs id) :
    wp (exec S) ok ((Backend.mintToken id ctx).bind fun token =>
      (broadcast agent (.assign (m token))).bind fun _ => f) (fun _ w => I w) w := by
  refine wp_bind_reads Backend.mintToken_reads (fun _ => h) fun token => wp_bind.mpr ?_
  have hpushed : after (exec S) ok (fun _ => f) (fun _ w => I w) (.ok ())
      (w.delivered agent (.assign (m token))) :=
    hI.quiet_keeps hf _ (hI.push w agent (m token) h (by rw [hm]; exact hruns))
  cases hagent : w.db.agents.get agent with
  | none =>
    refine wp_bind.mpr (wp_ask fun i => ?_)
    show wp _ _ ((orDoesNotExist "Agent" (w.db.agents.get agent)).bind _) _ _
    rw [hagent]
    exact h
  | some row => exact wp_broadcast (by rw [hagent]; rfl) hpushed

theorem assignHigherOrder {ctx : CallerContext} {organization : Organization}
    {input : Backend.AssignInput} {higherId : ImplementationId} {higher : Implementation}
    {lowerId : ImplementationId} {caller : CallerId} (h : I w)
    (hhigher : w.db.implementations.get higherId = some higher)
    (hho : higher.higherOrderFor = some lowerId) :
    wp (exec S) ok (Backend.assignHigherOrder S ctx organization input higherId higher lowerId
      caller) (fun _ w => I w) w := by
  refine wp_bind_reads (.issue trivial) (fun _ => h) fun _ =>
    wp_bind_reads (orDoesNotExist_built Issues.compositional) (fun _ => h) fun lower =>
    wp_bind_reads (orDoesNotExist_built Issues.compositional) (fun _ => h) fun lowerAction =>
    wp_bind_reads (.issue trivial) (fun _ => h) fun _ =>
    wp_bind_reads (orDoesNotExist_built Issues.compositional) (fun _ => h) fun available => ?_
  split
  · exact h
  refine wp_bind_reads Backend.resolves_isRead.buildDependencyDict (fun _ => h) fun higherDependencies =>
    wp_bind_reads Backend.resolves_isRead.liftProjection (fun _ => h) fun lowerArgs =>
    wp_bind_reads Backend.resolves_isRead.liftProjection (fun _ => h) fun lowerDependencies =>
    wp_bind_reads Backend.resolves_isRead.referenceFor (fun _ => h) fun reference => ?_
  refine wp_bind.mpr (Backend.wp_storeTask (fun _ => h) fun hwrapper => ?_)
  have hmade := hI.root w _ h hwrapper rfl rfl
  refine wp_bind_reads (.issue trivial) (fun _ => hmade) fun lowerReference => ?_
  refine wp_bind.mpr (Backend.wp_storeTask (fun _ => hmade) fun hchild => ?_)
  refine hI.wp_handOut (fun _ => rfl) trivial ?_ ⟨_, Table.get_insert_next, nofun⟩
  exact hI.pair w _ _ h hwrapper rfl rfl ⟨higherId, higher, rfl, hhigher, by rw [hho]; rfl⟩
    rfl rfl rfl hchild

theorem assign {ctx : CallerContext} {input : Backend.AssignInput} :
    Keeps (exec S) ok I (Backend.assign S ctx input) := by
  intro w h
  unfold Backend.assign
  split
  · exact h
  rename_i organization _
  have hcaller : Keeps (exec S) ok I (Backend.getCallerForContext ctx organization) := by
    refine hI.quiet_keeps ?_
    unfold Backend.getCallerForContext
    split
    · exact .issue trivial
    · trivial
  refine wp_bind.mpr (wp_mono ?_ (hcaller w h))
  rintro (e | caller) w h
  · exact h
  refine wp_bind.mpr (wp_mono ?_ Backend.wp_resolve)
  rintro (e | target) w' ⟨rfl, htarget⟩
  · exact h
  have hstored := htarget target rfl
  dsimp only [after]
  split
  · rename_i hho
    exact hI.assignHigherOrder h hstored hho
  rename_i hho
  refine wp_bind_reads (.issue trivial) (fun _ => h) fun _ =>
    wp_bind_reads (orDoesNotExist_built Issues.compositional) (fun _ => h) fun row =>
    wp_bind_reads (orDoesNotExist_built Issues.compositional) (fun _ => h) fun action =>
    wp_bind_reads Backend.resolves_isRead.referenceFor (fun _ => h) fun reference => ?_
  have hstore : ∀ dependencies, wp (exec S) ok
      ((Backend.storeTask (Backend.plainTask S input target caller reference dependencies)).bind
        fun task => (Backend.mintToken task ctx).bind fun token =>
        (broadcast target.implementation.agent (.assign {
          task := task
          args := input.args
          user := ctx.user.sub
          org := organization.slug
          reference := some reference
          capture := input.capture.getD false
          resolution := none
          interface := target.implementation.interface
          action := action.hash
          implementation := target.id
          token := token })).bind fun _ =>
        (Prog.forEach (fun hook => if hook.kind = .init then .fail .validationError else .ret ())
          input.hooks).bind fun _ => .ret task) (fun _ w => I w) w' := by
    intro dependencies
    refine wp_bind.mpr (Backend.wp_storeTask (fun _ => h) fun hadmits => ?_)
    refine hI.wp_handOut (fun _ => rfl) ?_ (hI.root w' _ h hadmits rfl rfl)
      ⟨_, Table.get_insert_next, ?_⟩
    · refine Issues.compositional.bind (Issues.compositional.forEach fun hook _ => ?_)
        fun _ => Issues.compositional.ret _
      split <;> trivial
    · rintro ⟨⟨i, impl, hi, himpl, hsome⟩, _⟩
      cases hi
      cases hstored.symm.trans himpl
      rw [hho] at hsome
      cases hsome
  cases target.dependencyDict with
  | some dependencies => exact hstore dependencies
  | none => exact wp_bind_reads Backend.resolves_isRead.buildDependencyDict (fun _ => h) hstore

/-- Every assign and every control request. -/
theorem postmanCall {c : PostmanCall} : Keeps (exec S) ok I (c.code S) := by
  have hdiscard : ∀ {β : Type} {p : Handler β}, Keeps (exec S) ok I p →
      Keeps (exec S) ok I (discard p) := discard_built Keeps.compositional
  have hread : ∀ q : Query, Keeps (exec S) ok I (ask q) := fun q => hI.quiet_keeps (.issue trivial)
  cases c with
  | assign ctx input => exact hdiscard hI.assign
  | control op id => exact hdiscard (hI.quiet_keeps Backend.requestControl_issues)
  | callerAssign agent reference input =>
    refine hdiscard (Keeps.compositional.bind (hread _) fun _ =>
      Keeps.compositional.bind (orDoesNotExist_built Keeps.compositional) fun row =>
      Keeps.compositional.bind (hI.quiet_keeps (.issue trivial)) fun caller =>
      Keeps.compositional.bind (hread _) fun existing => ?_)
    split
    · exact Keeps.compositional.ret _
    split
    · exact Keeps.compositional.fail _
    · exact Keeps.compositional.bind (hread _) fun roles =>
        Keeps.compositional.bind hI.assign fun task => Keeps.compositional.ret _
  | callerControl agent op id =>
    exact hdiscard (hI.quiet_keeps Backend.callerControlSync_issues)
  | callerCancel server agent id autoInterrupt =>
    exact hdiscard (hI.quiet_keeps Backend.onCallerCancel_issues)
  | escalate id => exact hI.quiet_keeps Backend.escalateToInterrupt_issues

end TakesWork
end Rekuest
