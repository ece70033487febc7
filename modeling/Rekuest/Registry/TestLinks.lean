import Rekuest.Registry.Described

/-!
# Rekuest.Registry.TestLinks

The links of the tests to the actions that they test.

* `ExactLinks`: each test is linked to the actions that match one of its targets, and no others.
* `Registers`: the registrations that a call is made of, with the database each one meets.
* `Quiet`: a registration that no other test has to be told of.
* `exactLinks_of_runs`: histories of quiet registrations keep the links exact. A target that comes
  after its test is not quiet, and the test is not linked to it when it is registered once more.
-/

namespace Rekuest
namespace Registration

open Fallible
open Interleave (Table)

/-- The links of every action are to the actions that match the targets of its definition. -/
def ExactLinks (H : Hashing) (D : Set Identity) (db : Database) : Prop :=
  ∀ k row, db.actions.get k = some row → ∀ d ∈ D, row.hash = H.definition d →
    db.isTestFor k = matchingActions db row.organization row.app d.isTestFor

/-- One of the targets of a test of the app names the action. -/
def Names (targets : List TestTarget) (app : String) (row : Action) : Prop :=
  ∃ target ∈ targets, TestTarget.matches target app row = true

/-- The targets of every other test name the action, as it is about to be, if and only if they
named it before. -/
def Quiet (H : Hashing) (D : Set Identity) (db : Database) (agent : Agent)
    (definition : Definition) : Prop :=
  ∀ k test, db.actions.get k = some test → test.organization = agent.organization →
    test.coordinate ≠ (agent.organization, agent.app, definition.key, definition.version) →
    ∀ d ∈ D, test.hash = H.definition d →
      (Names d.isTestFor test.app
          (agent.newAction (H.definition definition.toIdentity) definition) ↔
        ∃ j row, db.actions.get j = some row ∧ row.coordinate =
          (agent.organization, agent.app, definition.key, definition.version) ∧
          Names d.isTestFor test.app row)

/-- The registrations of a call, in the database that each one meets. -/
inductive Registers (H : Hashing) (db : Database) :
    Call → Database → Agent → ImplementationInput → Prop where
  | batch {requester : Requester} {input : AgentInput} {uuid : String}
      {begun : Database × AgentId × Agent} {batch : Batch}
      {before after : List ImplementationInput} {declared : ImplementationInput} :
      beginAgent db requester input uuid = .ok begun →
      input.implementations = before ++ declared :: after →
      before.foldlM (registerMapped H begun.2.1 begun.2.2)
        ⟨begun.1, prefetch begun.1 begun.2.1 begun.2.2 input.implementations, []⟩ = .ok batch →
      Registers H db (.implementAgent requester input uuid) batch.db begun.2.2 declared
  | single {requester : Requester} {input : ImplementationInput} {agent : Agent} :
      (upsertAgent db requester requester.client.clientId none).1.agents.get
        (upsertAgent db requester requester.client.clientId none).2 = some agent →
      Registers H db (.createImplementation requester input)
        (upsertAgent db requester requester.client.clientId none).1 agent input

/-- Every registration of the call is quiet. -/
def Call.Quiet (H : Hashing) (D : Set Identity) (db : Database) (call : Call) : Prop :=
  ∀ db' agent input, Registers H db call db' agent input →
    Registration.Quiet H D db' agent input.definition

variable {H : Hashing} {D : Set Identity} {db db' db₁ : Database} {agentId : AgentId}
  {agent : Agent} {input : ImplementationInput} {found : Option (Instance Action)}
  {current : Option ImplementationRef} {k : ActionId} {r : Registered}

/-! ## One registration -/

theorem matches_congr {target : TestTarget} {app : String} {row other : Action}
    (hhash : row.hash = other.hash) (hcoordinate : row.coordinate = other.coordinate) :
    TestTarget.matches target app row = TestTarget.matches target app other := by
  simp only [Action.coordinate, Prod.mk.injEq] at hcoordinate
  obtain ⟨_, happ, hkey, hversion⟩ := hcoordinate
  simp only [TestTarget.matches, hhash, happ, hkey, hversion]

theorem names_congr {targets : List TestTarget} {app : String} {row other : Action}
    (hhash : row.hash = other.hash) (hcoordinate : row.coordinate = other.coordinate) :
    Names targets app row ↔ Names targets app other := by
  simp only [Names, matches_congr hhash hcoordinate]

/-- The qualifiers do not matter to who matches. -/
theorem named_qualify {organization : Organization} {app : String} {targets : List TestTarget}
    {before : Action} {definition : Definition} :
    (∃ row, some (before.qualify definition) = some row ∧ row.organization = organization ∧
        Names targets app row) ↔
      ∃ row, some before = some row ∧ row.organization = organization ∧
        Names targets app row := by
  constructor
  · intro h
    obtain ⟨row, hrow, horganization, hnames⟩ := h
    rw [← Option.some.inj hrow] at horganization hnames
    exact ⟨before, rfl, horganization, (names_congr rfl rfl).mp hnames⟩
  · intro h
    obtain ⟨row, hrow, horganization, hnames⟩ := h
    rw [← Option.some.inj hrow] at horganization hnames
    exact ⟨_, rfl, horganization, (names_congr rfl rfl).mp hnames⟩

/-- The rows after a registration are those after its action, but for the deleted one. -/
theorem Turned.rows (h : Turned H db agentId agent input found current r k db₁)
    (hlook : Looked db agentId agent input found current) (j : ActionId) :
    r.db.actions.get j = if r.dropped = some j then none else db₁.actions.get j := by
  obtain ⟨_, _, _, _, _, _, _, hothers⟩ := h.acted.facts hlook h.pk
  split
  · rename_i hdrop
    exact (h.gone j hdrop).2.1
  · rename_i hdrop
    by_cases hj : j = k
    · rw [hj]
      exact (congrArg ActionView.row h.own :)
    · have hview := (h.others j hj hdrop).trans
        (congrArg (fun v => ActionView.unlink v r.dropped) (hothers j hj).symm)
      exact (congrArg ActionView.row hview :)

theorem matchingActions_filter {organization : Organization} {app : String}
    {targets : List TestTarget} {dropped : Option ActionId}
    (h : ∀ j, db'.actions.get j = if dropped = some j then none else db.actions.get j) :
    matchingActions db' organization app targets =
      (matchingActions db organization app targets).filter fun j => dropped ≠ some j := by
  ext j
  rw [Finset.mem_filter, mem_matchingActions, mem_matchingActions, h]
  by_cases hdrop : dropped = some j
  · simp [hdrop]
  · simp [hdrop]

/-- Who matches changes with the row of one action only. -/
theorem matchingActions_congr {organization : Organization} {app : String}
    {targets : List TestTarget} (hothers : ∀ j, j ≠ k → db'.actions.get j = db.actions.get j)
    (hk : (∃ row, db'.actions.get k = some row ∧ row.organization = organization ∧
        Names targets app row) ↔
      ∃ row, db.actions.get k = some row ∧ row.organization = organization ∧
        Names targets app row) :
    matchingActions db' organization app targets = matchingActions db organization app targets := by
  ext j
  rw [mem_matchingActions, mem_matchingActions]
  by_cases hj : j = k
  · rw [hj]
    exact hk
  · rw [hothers j hj]

/-- The registration of an action that is quiet does not change who matches the targets of
another test. -/
theorem matchingActions_acted (hlook : Looked db agentId agent input found current)
    (h : Turned H db agentId agent input found current r k db₁)
    (hquiet : Quiet H D db agent input.definition) {j : ActionId} {test : Action} {d : Identity}
    (hj : j ≠ k) (htest : db.actions.get j = some test) (hd : d ∈ D)
    (hhash : test.hash = H.definition d) :
    matchingActions db₁ test.organization test.app d.isTestFor =
      matchingActions db test.organization test.app d.isTestFor := by
  obtain ⟨_, _, _, _, _, _, _, hothers⟩ := h.acted.facts hlook h.pk
  have hrows : ∀ i, i ≠ k → db₁.actions.get i = db.actions.get i :=
    fun i hi => (congrArg ActionView.row (hothers i hi) :)
  refine matchingActions_congr hrows ?_
  have horganization : r.action.row.organization = agent.organization := by
    have hcoordinate := h.coordinate
    simp only [Action.coordinate, Prod.mk.injEq] at hcoordinate
    exact hcoordinate.1
  cases h.acted with
  | rewritten hwritten =>
    have hget : db₁.actions.get k = some r.action.row := hwritten.settled.get
    -- the action has its coordinate for itself
    have halone : ∀ i row, db.actions.get i = some row → row.coordinate =
        (agent.organization, agent.app, input.definition.key, input.definition.version) →
        i = k := by
      intro i row hi hcoordinate
      by_contra hik
      rw [← hrows i hik] at hi
      exact hwritten.rebuilt.unique i row _ hik hi hget (hcoordinate.trans h.coordinate.symm)
    have hbefore : ∀ row, db.actions.get k = some row → row.coordinate =
        (agent.organization, agent.app, input.definition.key, input.definition.version) := by
      intro row hrow
      have hfound : ∃ a, found = some a ∧ a.pk = some k := by
        by_contra hnone
        have hnew := h.new fun a ha => by
          by_contra hpk
          obtain ⟨i, hi⟩ := Option.ne_none_iff_exists'.mp hpk
          exact hnone ⟨a, ha, by rw [h.same a i ha hi, hi]⟩
        rw [hnew, Table.get_next] at hrow
        cases hrow
      obtain ⟨a, ha, hpk⟩ := hfound
      rw [(hlook.fits a ha k hpk).2 row hrow]
      exact hlook.coordinate a ha
    have hapart : test.coordinate ≠
        (agent.organization, agent.app, input.definition.key, input.definition.version) :=
      fun hsame => hj (halone j test htest hsame)
    have hnames : Names d.isTestFor test.app r.action.row ↔ Names d.isTestFor test.app
        (agent.newAction (H.definition input.definition.toIdentity) input.definition) :=
      names_congr h.acted.qualified.2.2 h.coordinate
    constructor
    · intro hafter
      obtain ⟨row, hrow, horg, hmatch⟩ := hafter
      rw [hget] at hrow
      rw [← Option.some.inj hrow] at horg hmatch
      have hquiet' := hquiet j test htest (horg.symm.trans horganization) hapart d hd hhash
      obtain ⟨i, row', hi, hcoordinate, hmatch'⟩ := hquiet'.mp (hnames.mp hmatch)
      rw [halone i row' hi hcoordinate] at hi
      refine ⟨row', hi, ?_, hmatch'⟩
      simp only [Action.coordinate, Prod.mk.injEq] at hcoordinate
      rw [hcoordinate.1, ← horganization, horg]
    · intro hbefore'
      obtain ⟨row, hrow, horg, hmatch⟩ := hbefore'
      have hcoordinate := hbefore row hrow
      have hrowOrganization : row.organization = agent.organization := by
        simp only [Action.coordinate, Prod.mk.injEq] at hcoordinate
        exact hcoordinate.1
      have hquiet' := hquiet j test htest (horg.symm.trans hrowOrganization) hapart d hd hhash
      exact ⟨_, hget, horganization.trans (hrowOrganization.symm.trans horg),
        hnames.mpr (hquiet'.mpr ⟨k, row, hrow, hcoordinate, hmatch⟩)⟩
  | kept row hkept =>
    have hget : db₁.actions.get k = some r.action.row := hkept.settled.get
    have hobject : r.action.row = row.qualify input.definition :=
      (congrArg Instance.row hkept.object :)
    rw [hget, hkept.get, hobject]
    exact named_qualify
  | stale hstale =>
    have hdb : db₁ = db := hstale.unchanged
    rw [hdb]

theorem exactLinks_of_turned (hD : Set.InjOn H.definition D)
    (hd : input.definition.toIdentity ∈ D)
    (hlook : Looked db agentId agent input found current)
    (h : Turned H db agentId agent input found current r k db₁)
    (hquiet : Quiet H D db agent input.definition) (hdb : ExactLinks H D db) :
    ExactLinks H D r.db := by
  obtain ⟨_, _, _, _, _, _, _, hothers⟩ := h.acted.facts hlook h.pk
  intro j row hget d hdD hhash
  rw [matchingActions_filter (h.rows hlook)]
  by_cases hj : j = k
  · subst hj
    obtain ⟨hrow, hget₁, hacted⟩ := h.own_row hget
    have hsame : d = input.definition.toIdentity := by
      refine hD hdD hd (hhash.symm.trans ?_)
      rw [hrow]
      exact h.acted.qualified.2.2
    have hlinks : r.db.isTestFor j = (db₁.isTestFor j).filter fun i => r.dropped ≠ some i :=
      (congrArg ActionView.isTestFor h.own :)
    rw [hlinks]
    congr 1
    rcases hacted with hwritten | ⟨before, hkept⟩
    · have hcoordinate := h.coordinate
      simp only [Action.coordinate, Prod.mk.injEq] at hcoordinate
      rw [hsame, hrow, hcoordinate.1, hcoordinate.2.1]
      exact hwritten.rebuilt.isTestFor
    · have hobject : r.action.row = before.qualify input.definition :=
        (congrArg Instance.row hkept.object :)
      have hbefore := hdb j before hkept.get d hdD (by rw [hkept.hash, hsame])
      have hframe : db₁.isTestFor j = db.isTestFor j :=
        (congrArg (fun db => Database.isTestFor db j) hkept.frame :)
      rw [hframe, hbefore, hrow, hobject]
      refine (matchingActions_congr
        (fun i hi => (congrArg ActionView.row (hothers i hi) :)) ?_).symm
      rw [hget₁, hkept.get, hobject]
      exact named_qualify
  · obtain ⟨hbefore, hview⟩ := h.other_row hj hget
    have hlinks : r.db.isTestFor j = (db.isTestFor j).filter fun i => r.dropped ≠ some i :=
      (congrArg ActionView.isTestFor hview :)
    rw [hlinks, hdb j row hbefore d hdD hhash,
      matchingActions_acted hlook h hquiet hj hbefore hdD hhash]

/-! ## Histories -/

theorem exactLinks_of_same (hactions : db'.actions = db.actions)
    (hview : ∀ k, view db' k = view db k) (hdb : ExactLinks H D db) : ExactLinks H D db' := by
  intro k row hget d hd hhash
  have hlinks : db'.isTestFor k = db.isTestFor k := (congrArg ActionView.isTestFor (hview k) :)
  have hmatching : matchingActions db' row.organization row.app d.isTestFor =
      matchingActions db row.organization row.app d.isTestFor := by
    rw [matchingActions, hactions]
    rfl
  rw [hactions] at hget
  rw [hlinks, hdb k row hget d hd hhash, hmatching]

/-- One call. -/
theorem exactLinks_of_run (hD : Set.InjOn H.definition D) {call : Call} (hcall : call.Declares D)
    (hquiet : call.Quiet H D db) (hdb : ExactLinks H D db) : ExactLinks H D (call.run H db) := by
  cases call with
  | implementAgent requester input uuid =>
    rw [Call.run]
    split
    · rename_i r hr
      obtain ⟨begun, batch, db₁, db₂, hcalled⟩ := implementAgent_ok hr
      have hbegun := (beginAgent_ok hcalled.begins).registry
      have hbatch : ExactLinks H D batch.db := by
        refine registerBatch_induction (fun before input' after hinputs b hbefore _ _ _ _ _ _ hlook
          hturned hb => exactLinks_of_turned hD (hcall input' ?_) hlook hturned
            (hquiet _ _ _ (.batch hcalled.begins hinputs hbefore)) hb)
          (exactLinks_of_same hbegun.actions hbegun.view hdb) hcalled.registered
        rw [Call.inputs, hinputs]
        exact List.mem_append_right _ List.mem_cons_self
      exact exactLinks_of_same hcalled.bloks.actions hcalled.bloks.view
        (exactLinks_of_same hcalled.reaped.actions hcalled.reaped.view
          (exactLinks_of_same hcalled.states.actions hcalled.states.view hbatch))
    · exact hdb
  | createImplementation requester input =>
    rw [Call.run]
    split
    · rename_i r hr
      obtain ⟨agent, hagent, hcreate⟩ := bind_ok_iff.mp hr
      rw [orRaise_ok_iff] at hagent
      have hbefore := @upsertAgent_registry db requester requester.client.clientId none
      obtain ⟨k, db₁, hturned⟩ := turned_of_register hcreate looked_createImplementation
      exact exactLinks_of_turned hD (hcall input (List.mem_singleton.mpr rfl))
        looked_createImplementation hturned (hquiet _ _ _ (.single hagent))
        (exactLinks_of_same hbefore.actions hbefore.view hdb)
    · have hupsert := @upsertAgent_registry db requester requester.client.clientId none
      exact exactLinks_of_same hupsert.actions hupsert.view hdb

/-- In every order of quiet registrations, each action is linked to the actions that match the
targets of its definition, and to no others. -/
theorem exactLinks_of_runs (hD : Set.InjOn H.definition D)
    (h : Runs H (fun db call => call.Declares D ∧ call.Quiet H D db) db) :
    ∀ k row, db.actions.get k = some row → ∃ d ∈ D, row.hash = H.definition d ∧
      db.isTestFor k = matchingActions db row.organization row.app d.isTestFor := by
  have hexact : ExactLinks H D db := by
    induction h with
    | empty => exact fun k row hget => (by cases hget)
    | call call _ hmeets ih => exact exactLinks_of_run hD hmeets.1 hmeets.2 ih
  intro k row hget
  have hdescribed := described_of_runs hD (h.mono fun _ _ h => h.1)
  obtain ⟨d, hd, hdes⟩ := hdescribed.described k row hget
  exact ⟨d, hd, hdes.hash, hexact k row hget d hd hdes.hash⟩

/-! ## A test and its target -/

def acquire : ImplementationInput := declare "acquire" "acquire"

/-- A test of `acquire`. -/
def checkAcquire : ImplementationInput :=
  { declare "check" "check" with
    definition := { key := "check", name := "check", isTestFor := [{ key := some "acquire" }] } }

/-- The two definitions. -/
def checked : Set Identity := {acquire.definition.toIdentity, checkAcquire.definition.toIdentity}

theorem checked_injOn : Set.InjOn naming.definition checked := by
  have hne : naming.definition acquire.definition.toIdentity ≠
      naming.definition checkAcquire.definition.toIdentity := by decide
  intro d hd e he hsame
  rcases hd with hd | hd <;> rcases he with he | he
  · rw [hd, he]
  · rw [hd, he] at hsame
    exact absurd hsame hne
  · rw [hd, he] at hsame
    exact absurd hsame.symm hne
  · rw [hd, he]

/-- The target is registered before its test. -/
theorem early_target_linked :
    let db := runCalls naming {} [.createImplementation (bench 1) acquire,
      .createImplementation (bench 1) checkAcquire]
    ∃ row, db.actions.get 2 = some row ∧ db.isTestFor 2 =
      matchingActions db row.organization row.app checkAcquire.definition.isTestFor := by
  intro db
  have hacquire : Call.Declares {acquire.definition.toIdentity}
      (.createImplementation (bench 1) acquire) := by
    intro input hinput
    rw [List.mem_singleton.mp hinput]
    rfl
  have hfirst : Described naming {acquire.definition.toIdentity}
      ((Call.createImplementation (bench 1) acquire).run naming {}) :=
    described_of_runs (Set.injOn_singleton _ _) (.call _ .empty hacquire)
  have hone : Runs naming (fun db call => call.Declares checked ∧ call.Quiet naming checked db)
      ((Call.createImplementation (bench 1) acquire).run naming {}) := by
    refine .call _ .empty ⟨fun input hinput => ?_, ?_⟩
    · rw [List.mem_singleton.mp hinput]
      exact .inl rfl
    · intro db' agent input hregisters k test htest
      cases hregisters
      cases htest
  have hruns : Runs naming (fun db call => call.Declares checked ∧
      call.Quiet naming checked db) db := by
    refine .call (.createImplementation (bench 1) checkAcquire) hone ⟨fun input hinput => ?_, ?_⟩
    · rw [List.mem_singleton.mp hinput]
      exact .inr rfl
    · -- the only action there is tests nothing
      intro db' agent input hregisters k test htest _ _ d hd hhash
      cases hregisters
      rw [upsertAgent_registry.actions] at htest
      obtain ⟨e, he, hdes⟩ := hfirst.described k test htest
      have hsame : d = acquire.definition.toIdentity := by
        refine checked_injOn hd (.inl rfl) (hhash.symm.trans ?_)
        rw [hdes.hash, he]
      rw [hsame]
      constructor
      · intro h
        obtain ⟨_, htarget, _⟩ := h
        cases htarget
      · intro h
        obtain ⟨_, _, _, _, _, htarget, _⟩ := h
        cases htarget
  obtain ⟨d, hd, hhash, hlinks⟩ := exactLinks_of_runs checked_injOn hruns 2 _ rfl
  have hsame : d = checkAcquire.definition.toIdentity :=
    checked_injOn hd (.inr rfl) (hhash.symm.trans rfl)
  rw [hsame] at hlinks
  exact ⟨_, rfl, hlinks⟩

/-- The target is registered after its test, and then both are registered once more. The test
stays unlinked, where in the other order it is linked. -/
theorem late_target_unlinked :
    let late := runCalls naming {} [.createImplementation (bench 1) checkAcquire,
      .createImplementation (bench 1) acquire, .createImplementation (bench 1) checkAcquire,
      .createImplementation (bench 1) acquire]
    let early := runCalls naming {} [.createImplementation (bench 1) acquire,
      .createImplementation (bench 1) checkAcquire, .createImplementation (bench 1) acquire,
      .createImplementation (bench 1) checkAcquire]
    late.isTestFor 1 = ∅ ∧ early.isTestFor 2 = {1} ∧
      late.isTestFor 1 ≠ matchingActions late ⟨1, "org"⟩ "mikro"
        checkAcquire.definition.isTestFor := by
  intro late early
  have hlate : late.isTestFor 1 = ∅ := rfl
  have hmatching : matchingActions late ⟨1, "org"⟩ "mikro" checkAcquire.definition.isTestFor =
      {2} := rfl
  refine ⟨hlate, rfl, ?_⟩
  rw [hlate, hmatching]
  decide

end Registration
end Rekuest
