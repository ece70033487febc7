import Rekuest.Tasks.CallerControl

/-!
# Rekuest.Tasks.Redelivery

The Assign of a re-queued task, against the one that was first handed out for it.

* `TaskRows`: the rows that a task points to. `assignOf`: the Assign that they give.
* `Dispatched`: a message as both dispatches of the backend fill it: without parent and root, and
  with the token that the requester is given. `wp_assign`: an assign hands out no other.
* `Redelivered`: the message that is built again is the first one, but for the token's clock and id.
* `redelivery_equal_iff`: so it is for a task without a parent whose arguments are read as they were
  stored, where no role of the requester made the token's difference: the roles are not stored.
-/

namespace Rekuest
namespace Redelivery

open Interleave Interleave.Prog
open Control (Mailed)
open CallerControl (wp_getOrCreateCaller)

/-! ## The message -/

/-- A task, and the rows that it points to. -/
structure TaskRows where
  task : Task
  implementationId : ImplementationId
  implementation : Implementation
  action : Action
  caller : Caller

/-- The rows of task `t`. -/
structure Loads (db : Database) (t : TaskId) (rows : TaskRows) : Prop where
  task : db.tasks.get t = some rows.task
  bound : rows.task.implementation = some rows.implementationId
  implementation : db.implementations.get rows.implementationId = some rows.implementation
  action : db.actions.get rows.task.action = some rows.action
  caller : rows.task.caller.bind db.callers.get = some rows.caller

/-- The Assign that the rows give, with this parent, root and token. -/
def assignOf (t : TaskId) (rows : TaskRows) (parent root : Option TaskId) (token : Option Token) :
    Assign where
  task := t
  args := rows.task.args.getD []
  user := rows.caller.user.sub
  org := rows.caller.organization.slug
  reference := some rows.task.reference
  capture := rows.task.capture
  resolution := rows.task.resolution
  interface := rows.implementation.interface
  action := rows.action.hash
  implementation := rows.implementationId
  parent := parent
  root := root
  token := token

/-- The message for a task of the database, as an assign of `ctx` fills it. -/
def Dispatched (S : Settings) (ctx : CallerContext) (db : Database) (agent : AgentId)
    (m : Assign) : Prop :=
  ∃ rows, Loads db m.task rows ∧ rows.caller.user = ctx.user ∧ rows.task.agent = agent ∧
    (rows.task.parent = none → rows.task.root = none) ∧ (db.agents.get agent).isSome = true ∧
    m = assignOf m.task rows none none m.token ∧
    ∃ now jti, Provenance.mintTokenForTask S db now jti m.task rows.task ctx = .ok m.token

/-- What was handed to the transports since. -/
def mailSince (w w' : World) : List (AgentId × ToAgentMessage) :=
  w'.pushed.drop w.pushed.length ++ w'.posted.drop w.posted.length

/-! ## The claims -/

/-- The token, without the clock readings and its id. -/
def claims (token : Token) : Token := { token with iat := 0, exp := 0, jti := "" }

/-- The message was built, and is the first one but for the claims that each token has anew. -/
def Redelivered (m : Assign) (result : Except Error (Option Assign)) : Prop :=
  ∃ m', result = .ok (some m') ∧ { m' with token := none } = { m with token := none } ∧
    m'.token.map claims = m.token.map claims

/-- The rows that the message is built from are as they were; the columns of the task that its
reports and instructions write may have changed, and the agent's lease. -/
structure Unedited (t : TaskId) (db db' : Database) : Prop where
  rows : ∀ rows, Loads db t rows → ∃ task', rows.task.Evolves task' ∧
    Loads db' t { rows with task := task' }
  agent : ∀ task agent, db.tasks.get t = some task → db.agents.get task.agent = some agent →
    ∃ agent', db'.agents.get task.agent = some agent' ∧ agent'.user = agent.user ∧
      agent'.client = agent.client

/-- The task has no parent, its arguments are read as they were stored, and where it needs a token, no
role makes a human of the requester. -/
def Redeliverable (S : Settings) (ctx : CallerContext) (db : Database) (t : TaskId) : Prop :=
  ∃ rows, Loads db t rows ∧ rows.task.parent = none ∧ rows.task.loaded.args = rows.task.args ∧
    (rows.implementation.needsToken = true →
      S.provenance.humanRoles = [] ∨ ∀ r ∈ ctx.roles, r ∉ S.provenance.humanRoles)

variable {S : Settings} {ok : Input → Stmt → World → Prop} {w w₀ w' : World} {db db' : Database}
  {ctx : CallerContext} {t : TaskId} {rows : TaskRows} {agent : AgentId} {m : Assign}

/-! ## What an assign hands out -/

theorem of_mem_mailSince {P : AgentId × ToAgentMessage → Prop} {x : AgentId × ToAgentMessage}
    (h : Mailed P w w') (hx : x ∈ mailSince w w') : P x := by
  obtain ⟨⟨pushed, hpushed, hp⟩, posted, hposted, hq⟩ := h
  rw [mailSince, hpushed, hposted, List.drop_left, List.drop_left] at hx
  rcases List.mem_append.mp hx with hx | hx
  · exact hp _ hx
  · exact hq _ hx

/-- The world after the assign has only messages that its rows give. -/
def HandsOut (S : Settings) (ctx : CallerContext) (w w' : World) : Prop :=
  Mailed (fun x => ∃ m, x.2 = .assign m ∧ Dispatched S ctx w'.db x.1 m) w w'

theorem HandsOut.of_same (hpushed : w'.pushed = w.pushed) (hposted : w'.posted = w.posted) :
    HandsOut S ctx w w' := ⟨⟨[], by simp [hpushed], by simp⟩, [], by simp [hposted], by simp⟩

theorem HandsOut.dispatched (h : HandsOut S ctx w w') (hm : (agent, .assign m) ∈ mailSince w w') :
    Dispatched S ctx w'.db agent m := by
  obtain ⟨m', heq, hd⟩ := of_mem_mailSince h hm
  cases heq
  exact hd

/-- The token and the Assign of a task that was just stored. -/
theorem wp_handOut {f : Handler TaskId} (hf : Prog.Issues (L := Statements) Stmt.IsRead f)
    (hpushed : w.pushed = w₀.pushed) (hposted : w.posted = w₀.posted) (hrows : Loads w.db t rows)
    (huser : rows.caller.user = ctx.user) (hagent : rows.task.agent = agent)
    (hroot : rows.task.parent = none → rows.task.root = none)
    (hthere : (w.db.agents.get agent).isSome = true) :
    wp (exec S) ok ((Backend.mintToken t ctx).bind fun token =>
      (broadcast agent (.assign (assignOf t rows none none token))).bind fun _ => f)
      (fun _ w' => HandsOut S ctx w₀ w') w := by
  have hself : HandsOut S ctx w₀ w := .of_same hpushed hposted
  unfold Backend.mintToken
  refine wp_bind.mpr (wp_bind.mpr (wp_ask fun i => ?_))
  cases hmint : (Query.mint t ctx).eval S i w.db with
  | error message =>
    exact hself
  | ok token =>
    refine wp_bind.mpr (wp_broadcast hthere (wp_reads hf fun _ => ?_))
    have hdispatched : Dispatched S ctx w.db agent (assignOf t rows none none token) := by
      refine ⟨rows, hrows, huser, hagent, hroot, hthere, rfl, i.now, i.uuid, ?_⟩
      simp only [Query.eval, hrows.task] at hmint
      exact hmint
    have hmailed : Mailed (fun x => ∃ m, x.2 = .assign m ∧ Dispatched S ctx w.db x.1 m) w
        (w.delivered agent (.assign (assignOf t rows none none token))) :=
      .delivered ⟨_, rfl, hdispatched⟩
    unfold HandsOut
    rw [World.delivered_db]
    refine ⟨?_, ?_⟩
    · rw [← hpushed]
      exact hmailed.pushed
    · rw [← hposted]
      exact hmailed.posted

theorem get_of_callerOf? {key : AgentIdentity} {c : CallerId} (h : db.callerOf? key = some c) :
    db.callers.get c = some ⟨key.client, key.user, key.organization⟩ := by
  obtain ⟨⟨k, caller⟩, hhead, rfl⟩ := Option.map_eq_some_iff.mp h
  obtain ⟨hget, hp⟩ := Table.mem_select.mp (List.mem_of_mem_head? hhead)
  simp only [Bool.and_eq_true, decide_eq_true_eq] at hp
  obtain ⟨⟨hclient, huser⟩, horganization⟩ := hp
  rw [hget, ← hclient, ← huser, ← horganization]

/-- The rows of a task that was stored just now. -/
theorem loads_withTask (w : World) (row : Task) {implId : ImplementationId} {impl : Implementation}
    {action : Action} {caller : Caller} (himpl : row.implementation = some implId)
    (hstored : w.db.implementations.get implId = some impl)
    (haction : w.db.actions.get row.action = some action)
    (hcaller : row.caller.bind w.db.callers.get = some caller) :
    Loads (w.withTask row).db w.db.tasks.next ⟨row, implId, impl, action, caller⟩ where
  task := Table.get_insert_next
  bound := himpl
  implementation := hstored
  action := haction
  caller := hcaller

/-- An answer of the program is of this kind, and the world is as it was. -/
theorem wp_found {α β : Type} {model : String} {x : Option α} {f : α → Handler β}
    {Q : Except Error β → World → Prop} (herr : Q (.error (.doesNotExist model)) w)
    (h : ∀ a, x = some a → wp (exec S) ok (f a) Q w) :
    wp (exec S) ok ((orDoesNotExist model x).bind f) Q w := by
  cases x with
  | none => exact herr
  | some a => exact h a rfl

theorem wp_implementation {β : Type} {id : ImplementationId}
    {f : Implementation × Option Action → Handler β} {Q : Except Error β → World → Prop}
    (herr : Q (.error (.doesNotExist "Implementation")) w)
    (h : ∀ impl, w.db.implementations.get id = some impl →
      wp (exec S) ok (f (impl, w.db.actions.get impl.action)) Q w) :
    wp (exec S) ok ((ask (.implementation id)).bind fun x =>
      (orDoesNotExist "Implementation" x).bind f) Q w := by
  refine wp_bind.mpr (wp_ask fun i => wp_found herr fun pair hpair => ?_)
  obtain ⟨impl, himpl, rfl⟩ := Option.map_eq_some_iff.mp hpair
  exact h impl himpl

theorem wp_assignHigherOrder {organization : Organization} {input : Backend.AssignInput}
    {higherId : ImplementationId} {higher : Implementation} {lowerId : ImplementationId}
    {c : CallerId} {caller : Caller} (hpushed : w.pushed = w₀.pushed)
    (hposted : w.posted = w₀.posted) (hcaller : w.db.callers.get c = some caller)
    (huser : caller.user = ctx.user) (horganization : caller.organization = organization) :
    wp (exec S) ok (Backend.assignHigherOrder S ctx organization input higherId higher lowerId c)
      (fun _ w' => HandsOut S ctx w₀ w') w := by
  have hself : HandsOut S ctx w₀ w := .of_same hpushed hposted
  refine wp_implementation hself fun lower hlower => wp_found hself fun lowerAction haction =>
    wp_bind_reads (.issue trivial) (fun _ => hself) fun available =>
    wp_found hself fun available _ => ?_
  split
  · exact hself
  refine wp_bind_reads Backend.resolves_isRead.buildDependencyDict (fun _ => hself)
      fun higherDependencies =>
    wp_bind_reads Backend.resolves_isRead.liftProjection (fun _ => hself) fun lowerArgs =>
    wp_bind_reads Backend.resolves_isRead.liftProjection (fun _ => hself) fun lowerDependencies =>
    wp_bind_reads Backend.resolves_isRead.referenceFor (fun _ => hself) fun reference => ?_
  refine wp_bind.mpr (Backend.wp_storeTask (fun _ => hself) fun _ => ?_)
  have hmade : HandsOut S ctx w₀ (w.withTask (Backend.wrapperTask S input higherId higher c
      reference higherDependencies)) := .of_same hpushed hposted
  refine wp_bind_reads (.issue trivial) (fun _ => hmade) fun lowerReference => ?_
  refine wp_bind.mpr (Backend.wp_storeTask (fun _ => hmade) fun hchild => ?_)
  have hrows := loads_withTask (w.withTask (Backend.wrapperTask S input higherId higher c
      reference higherDependencies)) (Backend.childTask S w.db.tasks.next lowerId lower c
      lowerReference lowerArgs lowerDependencies) rfl hlower haction hcaller
  subst horganization
  rw [← huser]
  refine wp_handOut (f := .ret w.db.tasks.next) trivial ?_ ?_ hrows huser rfl nofun ?_
  · exact hpushed
  · exact hposted
  · exact (admits_iff.mp hchild).2.2.1

/-- The caller of the requester, and nothing handed out. -/
theorem wp_getCallerForContext {organization : Organization} :
    wp (exec S) ok (Backend.getCallerForContext ctx organization) (fun r w' =>
      w'.pushed = w.pushed ∧ w'.posted = w.posted ∧ ∀ c, r = .ok c → ∃ client,
        w'.db.callers.get c = some ⟨client, ctx.user, organization⟩) w := by
  unfold Backend.getCallerForContext
  cases ctx.client with
  | none => exact ⟨rfl, rfl, nofun⟩
  | some client =>
    refine wp_getOrCreateCaller (fun c hc => ⟨rfl, rfl, ?_⟩) fun _ => ⟨rfl, rfl, ?_⟩
    · rintro _ ⟨⟩
      exact ⟨client, get_of_callerOf? hc⟩
    · rintro _ ⟨⟩
      exact ⟨client, Table.get_insert_next⟩

/-- **An assign** hands out nothing but what the rows of its tasks give. -/
theorem wp_assign {input : Backend.AssignInput} :
    wp (exec S) ok (Backend.assign S ctx input) (fun _ w' => HandsOut S ctx w w') w := by
  unfold Backend.assign
  split
  · exact HandsOut.of_same rfl rfl
  rename_i organization _
  refine wp_bind.mpr (wp_mono ?_ wp_getCallerForContext)
  rintro (e | c) w₁ ⟨hpushed, hposted, hcaller⟩
  · exact HandsOut.of_same hpushed hposted
  obtain ⟨client, hcaller⟩ := hcaller c rfl
  have hself : HandsOut S ctx w w₁ := .of_same hpushed hposted
  refine wp_bind.mpr (wp_mono ?_ Backend.wp_resolve)
  rintro (e | target) w' ⟨rfl, htarget⟩
  · exact hself
  have hstored := htarget target rfl
  dsimp only [after]
  split
  · exact wp_assignHigherOrder hpushed hposted hcaller rfl rfl
  refine wp_implementation hself fun impl himpl => wp_found hself fun action haction =>
    wp_bind_reads Backend.resolves_isRead.referenceFor (fun _ => hself) fun reference => ?_
  cases hstored.symm.trans himpl
  have hstore : ∀ dependencies, wp (exec S) ok
      ((Backend.storeTask (Backend.plainTask S input target c reference dependencies)).bind
        fun task => (Backend.mintToken task ctx).bind fun token =>
        (broadcast target.implementation.agent (.assign {
          task := task
          args := input.args
          user := ctx.user.sub
          org := organization.slug
          reference := some reference
          capture := input.capture.getD false
          resolution := none
          interface := target.implementation.interface
          action := action.hash
          implementation := target.id
          token := token })).bind fun _ =>
        (Prog.forEach (fun hook => if hook.kind = .init then .fail .validationError else .ret ())
          input.hooks).bind fun _ => .ret task) (fun _ w'' => HandsOut S ctx w w'') w' := by
    intro dependencies
    refine wp_bind.mpr (Backend.wp_storeTask (fun _ => hself) fun hadmits => ?_)
    have hrows := loads_withTask w' (Backend.plainTask S input target c reference dependencies)
      rfl hstored haction hcaller
    refine wp_handOut (f := (Prog.forEach (fun hook => if hook.kind = .init then .fail
      .validationError else .ret ()) input.hooks).bind fun _ => .ret _) ?_ ?_ ?_ hrows rfl rfl
      (fun _ => rfl) ?_
    · refine Issues.compositional.bind (Issues.compositional.forEach fun hook _ => ?_)
        fun _ => Issues.compositional.ret _
      split <;> trivial
    · exact hpushed
    · exact hposted
    · exact (admits_iff.mp hadmits).2.2.1
  cases target.dependencyDict with
  | some dependencies => exact hstore dependencies
  | none => exact wp_bind_reads Backend.resolves_isRead.buildDependencyDict (fun _ => hself) hstore

/-! ## What is built again -/

/-- The requester, as far as the rows have it. -/
def callerContext (caller : Caller) : CallerContext where
  user := caller.user
  client := some caller.client
  organization := some caller.organization

theorem wp_buildRedispatchAssignSync (hrows : Loads w.db t rows)
    {Q : Except Error (Option Assign) → World → Prop}
    (hrefused : ∀ now jti message, Provenance.mintTokenForTask S w.db now jti t rows.task.loaded
      (callerContext rows.caller) = .error message → Q (.ok none) w)
    (hminted : ∀ now jti token, Provenance.mintTokenForTask S w.db now jti t rows.task.loaded
      (callerContext rows.caller) = .ok token →
        Q (.ok (some (assignOf t { rows with task := rows.task.loaded } rows.task.parent
          rows.task.root token))) w) :
    wp (exec S) ok (PersistBackend.buildRedispatchAssignSync t) Q w := by
  refine wp_bind.mpr (wp_ask fun i => ?_)
  have hsource : (Query.redispatchSource t).eval S i w.db = some {
      task := rows.task.loaded
      implementation := some (rows.implementationId, rows.implementation)
      action := some rows.action
      caller := some rows.caller } := by
    simp only [Query.eval, hrows.task, Option.map_some, hrows.bound, Option.bind_some,
      hrows.implementation, hrows.action, hrows.caller]
  rw [hsource]
  show wp _ _ ((ask (.mintLoaded t (callerContext rows.caller))).bind _) _ _
  refine wp_bind.mpr (wp_ask fun j => ?_)
  have hquery : (Query.mintLoaded t (callerContext rows.caller)).eval S j w.db =
      Provenance.mintTokenForTask S w.db j.now j.uuid t rows.task.loaded
        (callerContext rows.caller) := by
    simp only [Query.eval, hrows.task]
  cases hmint : (Query.mintLoaded t (callerContext rows.caller)).eval S j w.db with
  | error message => exact hrefused j.now j.uuid message (hquery.symm.trans hmint)
  | ok token => exact hminted j.now j.uuid token (hquery.symm.trans hmint)

/-! ## The token of a root -/

section

variable {now : Time} {jti : String} {task : Task} {impl : Implementation} {row : Agent}

/-- The token of a task without a parent. -/
def rootToken (S : Settings) (now : Time) (jti : String) (t : TaskId) (task : Task)
    (impl : Implementation) (row : Agent) (ctx : CallerContext) : Token where
  iss := S.provenance.issuer
  aud := impl.provenanceAudience.getD []
  sub := ctx.user.sub
  actSub := row.user.sub
  actCid := row.client.clientId
  iat := now
  exp := now + S.provenance.tokenTtlSeconds
  jti := jti
  tsk := t
  ptk := none
  rtk := t
  rcb := some ctx.user.sub
  ahs := S.argsHash (task.args.getD [])

theorem mint_tokenless (himpl : task.implementation.bind db.implementations.get = some impl)
    (hneeds : impl.needsToken = false) :
    Provenance.mintTokenForTask S db now jti t task ctx = .ok none := by
  unfold Provenance.mintTokenForTask
  rw [himpl]
  cases db.agents.get task.agent with
  | none => rfl
  | some row => simp [hneeds]

variable (hroot : task.parent = none)
  (himpl : task.implementation.bind db.implementations.get = some impl)
  (hneeds : impl.needsToken = true) (hagent : db.agents.get task.agent = some row)
include hroot himpl hneeds hagent

theorem mint_human (hhuman : Provenance.isHumanByRoles S ctx.roles = true) :
    Provenance.mintTokenForTask S db now jti t task ctx =
      .ok (some (rootToken S now jti t task impl row ctx)) := by
  have hresolve : Provenance.resolveRoot db Provenance.maxLineageDepth t task = (t, task) := by
    simp [Provenance.maxLineageDepth, Provenance.resolveRoot, hroot]
  simp [Provenance.mintTokenForTask, himpl, hagent, hneeds, hresolve, Provenance.rootPrincipal,
    hroot, hhuman, rootToken]

variable (t now jti)

theorem mint_machine (hhuman : Provenance.isHumanByRoles S ctx.roles = false) :
    (S.provenance.strict = true →
      ∃ message, Provenance.mintTokenForTask S db now jti t task ctx = .error message) ∧
    (S.provenance.strict = false →
      Provenance.mintTokenForTask S db now jti t task ctx = .ok none) := by
  constructor
  · intro hstrict
    simp [Provenance.mintTokenForTask, himpl, hagent, hneeds, Provenance.rootPrincipal, hroot,
      hhuman, hstrict]
  · intro hlenient
    simp [Provenance.mintTokenForTask, himpl, hagent, hneeds, Provenance.rootPrincipal, hroot,
      hhuman, hlenient]

end

theorem isHumanByRoles_false_iff {roles : List String} :
    Provenance.isHumanByRoles S roles = false ↔
      S.provenance.humanRoles ≠ [] ∧ ∀ r ∈ roles, r ∉ S.provenance.humanRoles := by
  unfold Provenance.isHumanByRoles
  split <;> simp_all

theorem isHumanByRoles_nil :
    Provenance.isHumanByRoles S [] = true ↔ S.provenance.humanRoles = [] := by
  unfold Provenance.isHumanByRoles
  split <;> simp_all

/-! ## First and second delivery -/

theorem loads_unique {rows' : TaskRows} (h : Loads db t rows) (h' : Loads db t rows') :
    rows = rows' := by
  obtain ⟨task, implId, impl, action, caller⟩ := rows
  obtain ⟨task', implId', impl', action', caller'⟩ := rows'
  cases h.task.symm.trans h'.task
  cases h.bound.symm.trans h'.bound
  cases h.implementation.symm.trans h'.implementation
  cases h.action.symm.trans h'.action
  cases h.caller.symm.trans h'.caller
  rfl

theorem redeliverable_iff (h : Loads db t rows) : Redeliverable S ctx db t ↔
    rows.task.parent = none ∧ rows.task.loaded.args = rows.task.args ∧
      (rows.implementation.needsToken = true →
        S.provenance.humanRoles = [] ∨ ∀ r ∈ ctx.roles, r ∉ S.provenance.humanRoles) := by
  constructor
  · rintro ⟨rows', h', hredeliverable⟩
    cases loads_unique h h'
    exact hredeliverable
  · exact fun hredeliverable => ⟨rows, h, hredeliverable⟩

/-- The tokens of the same root, with whatever roles they were asked for. -/
theorem claims_rootToken {now now' : Time} {jti jti' : String} {task task' : Task}
    {impl : Implementation} {row row' : Agent} {ctx' : CallerContext} (he : task.Evolves task')
    (huser : row'.user = row.user) (hclient : row'.client = row.client)
    (hctx : ctx'.user = ctx.user) :
    claims (rootToken S now' jti' t task' impl row' ctx') =
      claims (rootToken S now jti t task impl row ctx) := by
  have hargs : task'.args = task.args := by rw [he.same]
  simp [claims, rootToken, hargs, huser, hclient, hctx]

/-- Of a root, the second token makes the first one's claims just when the first did not depend on
the roles of the requester. -/
theorem second_token_iff {now now' : Time} {jti jti' : String} {task task' : Task}
    {impl : Implementation} {row row' : Agent} {ctx' : CallerContext} {token : Option Token}
    (he : task.Evolves task') (hroot : task.parent = none)
    (himpl : task.implementation.bind db.implementations.get = some impl)
    (himpl' : task'.implementation.bind db'.implementations.get = some impl)
    (hagent : db.agents.get task.agent = some row)
    (hagent' : db'.agents.get task'.agent = some row')
    (huser : row'.user = row.user) (hclient : row'.client = row.client)
    (hctx : ctx'.user = ctx.user) (hroles : ctx'.roles = [])
    (hfirst : Provenance.mintTokenForTask S db now jti t task ctx = .ok token) :
    (∃ token', Provenance.mintTokenForTask S db' now' jti' t task' ctx' = .ok token' ∧
      token'.map claims = token.map claims) ↔
      (impl.needsToken = true →
        S.provenance.humanRoles = [] ∨ ∀ r ∈ ctx.roles, r ∉ S.provenance.humanRoles) := by
  have hroot' : task'.parent = none := he.parent_eq.trans hroot
  cases hneeds : impl.needsToken with
  | false =>
    rw [mint_tokenless himpl hneeds] at hfirst
    cases hfirst
    exact iff_of_true ⟨none, mint_tokenless himpl' hneeds, rfl⟩ nofun
  | true =>
    cases hhuman : Provenance.isHumanByRoles S ctx.roles with
    | true =>
      rw [mint_human hroot himpl hneeds hagent hhuman] at hfirst
      cases hfirst
      cases hagain : Provenance.isHumanByRoles S ctx'.roles with
      | true =>
        refine iff_of_true ⟨_, mint_human hroot' himpl' hneeds hagent' hagain, ?_⟩ fun _ => .inl ?_
        · exact congrArg some (claims_rootToken he huser hclient hctx)
        · rw [hroles] at hagain
          exact isHumanByRoles_nil.mp hagain
      | false =>
        obtain ⟨hstrict, hlenient⟩ := mint_machine t now' jti' hroot' himpl' hneeds hagent'
          hagain
        refine iff_of_false ?_ fun hno => ?_
        · rintro ⟨token', hsecond, hclaims⟩
          cases hs : S.provenance.strict with
          | true =>
            obtain ⟨message, herror⟩ := hstrict hs
            rw [herror] at hsecond
            cases hsecond
          | false =>
            rw [hlenient hs] at hsecond
            cases hsecond
            cases hclaims
        · have hnot : Provenance.isHumanByRoles S ctx.roles = false :=
            isHumanByRoles_false_iff.mpr ⟨(isHumanByRoles_false_iff.mp hagain).1,
              (hno rfl).resolve_left (isHumanByRoles_false_iff.mp hagain).1⟩
          rw [hhuman] at hnot
          cases hnot
    | false =>
      obtain ⟨hstrict, hlenient⟩ := mint_machine t now jti hroot himpl hneeds hagent hhuman
      obtain ⟨hroles', hnone⟩ := isHumanByRoles_false_iff.mp hhuman
      have hs : S.provenance.strict = false := by
        cases hs : S.provenance.strict with
        | true =>
          obtain ⟨message, herror⟩ := hstrict hs
          rw [herror] at hfirst
          cases hfirst
        | false => rfl
      rw [hlenient hs] at hfirst
      cases hfirst
      have hagain : Provenance.isHumanByRoles S ctx'.roles = false := by
        rw [hroles]
        exact isHumanByRoles_false_iff.mpr ⟨hroles', by simp⟩
      exact iff_of_true ⟨none, (mint_machine t now' jti' hroot' himpl' hneeds hagent'
        hagain).2 hs, rfl⟩
        fun _ => .inr hnone

theorem loaded_eq {task : Task} (h : task.loaded.args = task.args) : task.loaded = task := by
  have heq : task.loaded = { task with args := task.loaded.args } := rfl
  rw [heq, h]

theorem loaded_getD_iff {task : Task} :
    task.loaded.args.getD [] = task.args.getD [] ↔ task.loaded.args = task.args := by
  cases hargs : task.args with
  | none => simp [Task.loaded, hargs]
  | some args => simp [Task.loaded, hargs]

/-- But for the token, the second message is the first one just when the task has no parent, and its
arguments are read as they were stored. -/
theorem redelivered_iff {task' : Task} {token : Option Token} (he : rows.task.Evolves task')
    (hroot : rows.task.parent = none → rows.task.root = none)
    (hfirst : m = assignOf m.task rows none none m.token) :
    Redelivered m (.ok (some (assignOf m.task { rows with task := task'.loaded } task'.parent
      task'.root token))) ↔ task'.parent = none ∧ task'.loaded.args = task'.args ∧
        token.map claims = m.token.map claims := by
  have hargs : task'.args = rows.task.args := by rw [he.same]
  constructor
  · rintro ⟨m', heq, hfields, hclaims⟩
    cases heq
    have hparent := congrArg Assign.parent hfields
    have hloaded := congrArg Assign.args hfields
    rw [hfirst] at hparent hloaded
    refine ⟨hparent, loaded_getD_iff.mp ?_, hclaims⟩
    rw [hargs]
    exact hloaded
  · rintro ⟨hparent, hloaded, hclaims⟩
    refine ⟨_, rfl, ?_, hclaims⟩
    have hroot' : task'.root = none := he.root_eq.trans (hroot (he.parent_eq.symm.trans hparent))
    rw [loaded_eq hloaded, hfirst, hparent, hroot', he.same]
    rfl

/-- **Redelivery.** The Assign that is built for a re-queued task is the one that an assign handed
out, if, and only if, the task has no parent, its arguments are read as they were stored, and it needs
no token, no roles mark a human, or the requester holds none that do: its roles are not stored. -/
theorem redelivery_equal_iff (S : Settings) (w : World) (ctx : CallerContext)
    (input : Backend.AssignInput) (i : Nat → Input) (agent : AgentId) (m : Assign)
    (hm : (agent, .assign m) ∈ mailSince w (runAlone S (Backend.assign S ctx input) i w))
    (w' : World) (hsame : Unedited m.task (runAlone S (Backend.assign S ctx input) i w).db w'.db)
    (j : Nat → Input) :
    Redelivered m ((PersistBackend.buildRedispatchAssignSync m.task).run (exec S) j w').result ↔
      Redeliverable S ctx w'.db m.task := by
  have hassign : wp (exec S) anyStep (Backend.assign S ctx input)
      (fun _ w' => HandsOut S ctx w w') w := wp_assign
  have hout : HandsOut S ctx w (runAlone S (Backend.assign S ctx input) i w) :=
    wp_run hassign meets_any
  generalize runAlone S (Backend.assign S ctx input) i w = w₁ at hm hsame hout
  obtain ⟨rows, hrows, huser, hagent, hroot, hthere, hfirst, now, jti, hmint⟩ := hout.dispatched hm
  obtain ⟨task', he, hrows'⟩ := hsame.rows rows hrows
  obtain ⟨row, hrow⟩ := Option.isSome_iff_exists.mp hthere
  obtain ⟨row', hrow', hrowuser, hrowclient⟩ :=
    hsame.agent rows.task row hrows.task (hagent ▸ hrow)
  have htoken : rows.task.parent = none → ∀ now' jti', (∃ token',
      Provenance.mintTokenForTask S w'.db now' jti' m.task task' (callerContext rows.caller) =
        .ok token' ∧ token'.map claims = m.token.map claims) ↔
      (rows.implementation.needsToken = true →
        S.provenance.humanRoles = [] ∨ ∀ r ∈ ctx.roles, r ∉ S.provenance.humanRoles) := by
    intro hparent now' jti'
    refine second_token_iff he hparent ?_ ?_ (hagent ▸ hrow) ?_ hrowuser hrowclient huser rfl hmint
    · rw [hrows.bound, Option.bind_some, hrows.implementation]
    · rw [hrows'.bound, Option.bind_some, hrows'.implementation]
    · rw [he.agent_eq, hrow']
  rw [redeliverable_iff hrows']
  suffices hbuilt : wp (exec S) anyStep (PersistBackend.buildRedispatchAssignSync m.task)
      (fun r _ => Redelivered m r ↔ task'.parent = none ∧ task'.loaded.args = task'.args ∧
        (rows.implementation.needsToken = true →
          S.provenance.humanRoles = [] ∨ ∀ r ∈ ctx.roles, r ∉ S.provenance.humanRoles)) w' from
    wp_run hbuilt meets_any
  refine wp_buildRedispatchAssignSync hrows' ?_ ?_
  · intro now' jti' message hrefused
    refine iff_of_false (fun h => ?_) fun h => ?_
    · obtain ⟨m', heq, _⟩ := h
      cases heq
    · obtain ⟨hparent, hloaded, hroles⟩ := h
      obtain ⟨token', hsecond, _⟩ := (htoken (he.parent_eq.symm.trans hparent) now' jti').mpr hroles
      rw [loaded_eq hloaded] at hrefused
      cases hrefused.symm.trans hsecond
  · intro now' jti' token hminted
    refine (redelivered_iff he hroot hfirst).trans
      (and_congr_right fun hparent => and_congr_right fun hloaded => ?_)
    rw [loaded_eq hloaded] at hminted
    rw [← htoken (he.parent_eq.symm.trans hparent) now' jti']
    constructor
    · exact fun hclaims => ⟨token, hminted, hclaims⟩
    · rintro ⟨token', hsecond, hclaims⟩
      cases hminted.symm.trans hsecond
      exact hclaims

/-- The message is an Assign, of this task and parent. -/
def assignParent? : ToAgentMessage → Option (TaskId × Option TaskId)
  | .assign m => some (m.task, m.parent)
  | _ => none

theorem assign_of_mail {mail : List (AgentId × ToAgentMessage)} {parent : Option TaskId}
    (h : mail.map (fun x => assignParent? x.2) = [some (t, parent)]) :
    ∃ agent m, (agent, .assign m) ∈ mail ∧ m.task = t ∧ m.parent = parent := by
  obtain ⟨⟨agent, m⟩, rfl, hm⟩ := List.map_eq_singleton_iff.mp h
  cases m with
  | assign m =>
    cases hm
    exact ⟨agent, m, List.mem_singleton_self _, rfl, rfl⟩
  | _ => cases hm

theorem Unedited.refl : Unedited t db db where
  rows rows h := ⟨rows.task, .refl, h⟩
  agent _ agent _ h := ⟨agent, h, rfl, rfl⟩

/-- Task 1 is assigned to agent 1. -/
def first : World :=
  runAlone {} (Backend.assign {} requester { implementation := some 1 }) (fun _ => {})
    (Virtual.wrapperWorld false)

theorem redelivery_equal_iff_first : ∃ agent m,
    (agent, .assign m) ∈ mailSince (Virtual.wrapperWorld false) first ∧
    (Redelivered m ((PersistBackend.buildRedispatchAssignSync m.task).run (exec {}) (fun _ => {})
        first).result ↔ Redeliverable {} requester first.db m.task) := by
  have hmail : (mailSince (Virtual.wrapperWorld false) first).map (fun x => assignParent? x.2) =
      [some (1, none)] := by decide +kernel
  obtain ⟨agent, m, hm, _⟩ := assign_of_mail hmail
  exact ⟨agent, m, hm, redelivery_equal_iff {} (Virtual.wrapperWorld false) requester
    { implementation := some 1 } (fun _ => {}) agent m hm first .refl fun _ => {}⟩

/-- Task 1 runs. -/
def running : World := Interrupt.assigned 1 [(0, 20)]

/-- Task 2 depends on it. -/
def dependent : World :=
  runAlone {} (Backend.assign {} requester { implementation := some 1, parent := some 1 })
    (fun _ => {}) running

/-- The Assign of task 2 has no parent when it is first handed out, and has one when it is built
again. -/
theorem dependent_redelivery_differs : Reached {} running ∧ ∃ agent m,
    (agent, .assign m) ∈ mailSince running dependent ∧
      ¬ Redelivered m ((PersistBackend.buildRedispatchAssignSync m.task).run (exec {})
        (fun _ => {}) dependent).result := by
  refine ⟨Interrupt.reached_assigned, ?_⟩
  have hmail : (mailSince running dependent).map (fun x => assignParent? x.2) =
      [some (2, none)] := by decide +kernel
  obtain ⟨agent, m, hm, htask, hparent⟩ := assign_of_mail hmail
  refine ⟨agent, m, hm, ?_⟩
  rintro ⟨m', hbuilt, hfields, _⟩
  have hagain : (((PersistBackend.buildRedispatchAssignSync 2).run (exec {}) (fun _ => {})
      dependent).result.toOption.bind fun m => m.map (·.parent)) = some (some 1) := by
    decide +kernel
  rw [htask] at hbuilt
  rw [hbuilt] at hagain
  have hsame : m'.parent = m.parent := by
    have h := congrArg Assign.parent hfields
    exact h
  rw [hparent] at hsame
  have hone : m'.parent = some 1 := Option.some.inj hagain
  rw [hsame] at hone
  cases hone

end Redelivery
end Rekuest
