import Rekuest.Tasks.Forest
import Rekuest.Tree.Climb

/-!
# Rekuest.Provenance.Root

Whom the provenance token of a task names, against the true root of its tree.

* `RootAt`: the parentless ancestor of a task, any number of links above it.
* `originator`: who answers for the tree, and the roles this principal holds.
* `NamesRoot`: the token names the true root, and no token stands for a root that is not human.
* `names_root_iff`: minting names the root exactly where the walk up gets there, or ends at a
  task that no human answers for.
-/

namespace Rekuest
namespace Provenance

open Tree Interleave

variable {S : Settings} {db : Database} {id : TaskId} {task : Task} {n : Nat}

/-! ## The root -/

/-- The link from a task to its parent. -/
def up (db : Database) (t : TaskId × Task) : Option (TaskId × Task) :=
  t.2.parent.bind fun p => (db.tasks.get p).map (p, ·)

/-- `root` is the parentless ancestor of the task, `n` links above it. -/
structure RootAt (db : Database) (id : TaskId) (task : Task) (n : Nat) (root : TaskId × Task) :
    Prop where
  above : Above (up db) n (id, task) root
  parentless : root.2.parent = none

theorem resolveRoot_eq_climb (fuel : Nat) :
    resolveRoot db fuel id task = climb (up db) fuel (id, task) := by
  induction fuel generalizing id task with
  | zero => rfl
  | succ fuel ih =>
    cases hp : task.parent with
    | none => simp [resolveRoot, climb, up, hp]
    | some p =>
      cases hg : db.tasks.get p with
      | none => simp [resolveRoot, climb, up, hp, hg]
      | some parentTask =>
        simp only [resolveRoot, climb, up, hp, hg, Option.bind_some, Option.map_some]
        exact ih

theorem up_get {t p : TaskId × Task} (h : up db t = some p) : db.tasks.get p.1 = some p.2 := by
  obtain ⟨k, _, hk⟩ := Option.bind_eq_some_iff.mp h
  obtain ⟨row, hrow, rfl⟩ := Option.map_eq_some_iff.mp hk
  exact hrow

theorem up_parentless {t : TaskId × Task} (h : t.2.parent = none) : up db t = none := by
  simp [up, h]

theorem stored_of_above {t p : TaskId × Task} (h : Above (up db) n t p) (hn : 0 < n) :
    db.tasks.get p.1 = some p.2 := by
  obtain ⟨k, rfl⟩ : ∃ k, n = k + 1 := ⟨n - 1, by omega⟩
  obtain ⟨below, _, hlast⟩ := h.last
  exact up_get hlast

namespace RootAt

variable {root : TaskId × Task}

theorem resolved (h : RootAt db id task n root) {fuel : Nat} (hn : n ≤ fuel) :
    resolveRoot db fuel id task = root := by
  rw [resolveRoot_eq_climb]
  exact climb_top h.above (up_parentless h.parentless) hn

/-- Where the walk stops short of the root, it stops at an ancestor that is not the root. -/
theorem stopped (h : RootAt db id task n root) (fuel : Nat) (hpos : 0 < fuel) (hn : fuel < n) :
    ∃ stop, Above (up db) fuel (id, task) stop ∧
      resolveRoot db fuel id task = stop ∧ stop.1 ≠ root.1 := by
  obtain ⟨stop, hstop, hrest⟩ := h.above.split (Nat.le_of_lt hn)
  refine ⟨stop, hstop, ?_, ?_⟩
  · rw [resolveRoot_eq_climb]
    exact climb_above hstop
  · intro heq
    have hstored : db.tasks.get stop.1 = some stop.2 := stored_of_above hstop hpos
    rw [heq, stored_of_above h.above (by omega)] at hstored
    have htop : up db stop = none := by
      refine up_parentless ?_
      rw [← Option.some.inj hstored]
      exact h.parentless
    exact hrest.not_top (by omega) htop

end RootAt

/-! ## Who answers for it -/

/-- The roles mark an accountable human, as far as the deployment says which do. -/
def Accountable (S : Settings) (roles : List String) : Prop :=
  S.provenance.humanRoles = [] ∨ ∃ r ∈ roles, r ∈ S.provenance.humanRoles

theorem accountable_iff {roles : List String} :
    Accountable S roles ↔ isHumanByRoles S roles = true := by
  unfold Accountable isHumanByRoles
  split <;> simp [*]

/-- Who answers for the tree of `root`, and the roles this principal holds: whoever asks, where
the task is the root itself, and else the caller that is stored with the root. -/
def originator (db : Database) (task root : Task) (ctx : CallerContext) :
    Option (String × List String) :=
  if task.parent.isNone then some (ctx.user.sub, ctx.roles)
  else (root.caller.bind db.callers.get).map fun caller =>
    (caller.user.sub, rolesForCaller db caller)

/-- A human answers for the tree of `root`. -/
def HumanRoot (S : Settings) (db : Database) (task root : Task) (ctx : CallerContext) : Prop :=
  ∃ principal, originator db task root ctx = some principal ∧ Accountable S principal.2

theorem rootPrincipal_eq (S : Settings) (db : Database) (task root : Task) (ctx : CallerContext) :
    (rootPrincipal S db root task.parent.isNone ctx).1 =
        (originator db task root ctx).map (·.1) ∧
      ((rootPrincipal S db root task.parent.isNone ctx).2 = true ↔
        HumanRoot S db task root ctx) := by
  unfold rootPrincipal originator HumanRoot
  cases hp : task.parent.isNone with
  | true => simp [originator, hp, accountable_iff]
  | false =>
    cases hc : root.caller.bind db.callers.get with
    | none => simp [originator, hp, hc]
    | some caller =>
      simp only [originator, hp, hc, accountable_iff, isHumanCaller]
      simp [isHumanByRoles]

/-! ## The token -/

/-- The token names the root `root` of the task, and only a human root has one. -/
structure NamesRoot (S : Settings) (db : Database) (id : TaskId) (task : Task)
    (ctx : CallerContext) (root : TaskId × Task) (minted : Except String (Option Token)) :
    Prop where
  named : ∀ token, minted = .ok (some token) →
    token.rtk = root.1 ∧ token.ptk = task.parent ∧ token.tsk = id ∧
      ∃ principal, originator db task root.2 ctx = some principal ∧
        token.rcb = some principal.1 ∧ Accountable S principal.2
  refused : ¬ HumanRoot S db task root.2 ctx →
    if S.provenance.strict then ∃ message, minted = .error message else minted = .ok none

/-- What minting comes to at the root that the walk has found. -/
theorem mint_found {implementation : Implementation} {agent : Agent} (S : Settings) (now : Time)
    (jti : String) (ctx : CallerContext) (himpl : task.implementation.bind db.implementations.get =
      some implementation) (hneeds : implementation.needsToken = true)
    (hagent : db.agents.get task.agent = some agent) {found : TaskId × Task}
    (hfound : resolveRoot db maxLineageDepth id task = found) :
    NamesRoot S db id task ctx found (mintTokenForTask S db now jti id task ctx) ∧
      (HumanRoot S db task found.2 ctx → ∃ token,
        mintTokenForTask S db now jti id task ctx = .ok (some token)) := by
  obtain ⟨hsubject, hhuman⟩ := rootPrincipal_eq S db task found.2 ctx
  obtain ⟨found, row⟩ := found
  simp only [mintTokenForTask, himpl, hagent, hneeds, if_true, hfound]
  cases hp : rootPrincipal S db row task.parent.isNone ctx with
  | mk rcb human =>
  rw [hp] at hsubject hhuman
  cases human with
  | true =>
    obtain ⟨principal, horiginator, haccountable⟩ := hhuman.mp rfl
    refine ⟨⟨?_, fun hnot => absurd (hhuman.mp rfl) hnot⟩, fun _ => ⟨_, rfl⟩⟩
    rintro token ⟨⟩
    refine ⟨rfl, rfl, rfl, principal, horiginator, ?_, haccountable⟩
    rw [horiginator] at hsubject
    exact hsubject
  | false =>
    refine ⟨⟨?_, fun _ => ?_⟩, fun h => ?_⟩
    · intro token htoken
      cases hs : S.provenance.strict <;> simp [hs] at htoken
    · cases S.provenance.strict <;> simp
    · have := hhuman.mpr h
      cases this

/-- **Provenance.** The token of a task names the true root and its accountable human if, and only
if, the walk up goes as far as the root, or to a task that no human answers for: then nothing is
minted. -/
theorem names_root_iff {implementation : Implementation} {agent : Agent} {now : Time}
    {jti : String} {ctx : CallerContext} {root : TaskId × Task}
    (hroot : RootAt db id task n root)
    (himpl : task.implementation.bind db.implementations.get = some implementation)
    (hneeds : implementation.needsToken = true)
    (hagent : db.agents.get task.agent = some agent) :
    NamesRoot S db id task ctx root (mintTokenForTask S db now jti id task ctx) ↔
      n ≤ maxLineageDepth ∨ ∀ stop, Above (up db) maxLineageDepth (id, task) stop →
        ¬ HumanRoot S db task stop.2 ctx := by
  by_cases hn : n ≤ maxLineageDepth
  · refine iff_of_true ?_ (.inl hn)
    exact (mint_found S now jti ctx himpl hneeds hagent (hroot.resolved hn)).1
  obtain ⟨stop, habove, hstop, hne⟩ := hroot.stopped maxLineageDepth (by decide)
    (by omega)
  obtain ⟨hnames, hminted⟩ := mint_found S now jti ctx himpl hneeds hagent hstop
  constructor
  · intro h
    refine .inr fun stop' habove' hhuman => ?_
    obtain rfl : stop' = stop := by
      rw [← climb_above habove', ← climb_above habove]
    obtain ⟨token, htoken⟩ := hminted hhuman
    exact hne ((hnames.named token htoken).1.symm.trans (h.named token htoken).1)
  · rintro (h | hnone)
    · exact absurd h hn
    · have hnot : ¬ HumanRoot S db task stop.2 ctx := hnone stop habove
      have hrefused := hnames.refused hnot
      refine ⟨fun token htoken => ?_, fun _ => hrefused⟩
      obtain ⟨_, _, _, principal, horiginator, _, haccountable⟩ := hnames.named token htoken
      exact absurd ⟨principal, horiginator, haccountable⟩ hnot

/-! ## A chain that is too long -/

/-- The `k`-th task of a chain: task 1 is a human's, and each later one the child of the one
before it, caused by an agent. -/
def link (k : TaskId) : Task where
  implementation := some 1
  action := 1
  reference := ""
  parent := if k ≤ 1 then none else some (k - 1)
  caller := some (if k ≤ 1 then 1 else 2)
  agent := 1
  latestEventKind := .started
  latestInstructKind := .assign

def chainDb : Database where
  agents := Table.empty.insert {
    name := "agent", app := "app", release := "1", hash := "", user := ⟨2, "bot"⟩
    client := ⟨1, "client"⟩, organization := ⟨1, "org"⟩ }
  implementations := Table.empty.insert { interface := "run", action := 1, agent := 1 }
  callers := (Table.empty.insert ⟨⟨1, "client"⟩, ⟨1, "human"⟩, ⟨1, "org"⟩⟩).insert
    ⟨⟨1, "client"⟩, ⟨2, "bot"⟩, ⟨1, "org"⟩⟩
  tasks := ⟨fun k => if k ≤ 258 then some (link k) else none, 259, fun k h => if_neg (by omega)⟩

/-- The agent's principal, who asks for every task of the chain but the first. -/
def bot : CallerContext where
  user := ⟨2, "bot"⟩
  client := some ⟨1, "client"⟩
  organization := some ⟨1, "org"⟩

theorem above_chain {k : Nat} (hn : n < k) (hk : k ≤ 258) :
    Above (up chainDb) n (k, link k) (k - n, link (k - n)) := by
  induction n generalizing k with
  | zero => rfl
  | succ n ih =>
    have hup : up chainDb (k, link k) = some (k - 1, link (k - 1)) := by
      have hk' : ¬ k ≤ 1 := by omega
      have hp : k - 1 ≤ 258 := by omega
      simp [up, link, hk', chainDb, Table.get, hp]
    refine .succ hup ?_
    have hrest := ih (k := k - 1) (by omega) (by omega)
    rwa [show k - 1 - n = k - (n + 1) by omega] at hrest

theorem rootAt_chain {k : Nat} (hpos : 0 < k) (hk : k ≤ 258) :
    RootAt chainDb k (link k) (k - 1) (1, link 1) := by
  refine ⟨?_, rfl⟩
  have h := above_chain (n := k - 1) (k := k) (by omega) hk
  rwa [show k - (k - 1) = 1 by omega] at h

/-- Below a chain of 257 ancestors the token names the second task of the chain, an agent's, as
the root. -/
theorem long_chain_misattributed :
    RootAt chainDb 258 (link 258) 257 (1, link 1) ∧
      ¬ NamesRoot {} chainDb 258 (link 258) bot (1, link 1)
        (mintTokenForTask {} chainDb 0 "" 258 (link 258) bot) := by
  refine ⟨rootAt_chain (by omega) (by omega), fun h => ?_⟩
  have hstop : resolveRoot chainDb maxLineageDepth 258 (link 258) = (2, link 2) := by
    rw [resolveRoot_eq_climb]
    exact climb_above (above_chain (n := maxLineageDepth) (by decide) (by omega))
  have himpl : (link 258).implementation.bind chainDb.implementations.get =
      some { interface := "run", action := 1, agent := 1 } := rfl
  obtain ⟨hnames, hminted⟩ := mint_found {} 0 "" bot himpl rfl rfl hstop
  obtain ⟨token, htoken⟩ := hminted ⟨("bot", []), rfl, .inl rfl⟩
  have hsame : (2 : TaskId) = 1 :=
    (hnames.named token htoken).1.symm.trans (h.named token htoken).1
  exact absurd hsame (by decide)

/-- The second task of the chain has its root named. -/
theorem names_root_iff_child :
    NamesRoot {} chainDb 2 (link 2) bot (1, link 1)
        (mintTokenForTask {} chainDb 0 "" 2 (link 2) bot) ↔
      1 ≤ maxLineageDepth ∨ ∀ stop, Above (up chainDb) maxLineageDepth (2, link 2) stop →
        ¬ HumanRoot {} chainDb (link 2) stop.2 bot :=
  names_root_iff (rootAt_chain (k := 2) (by omega) (by omega)) rfl rfl rfl

end Provenance
end Rekuest
