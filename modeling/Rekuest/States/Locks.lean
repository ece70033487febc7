import Rekuest.Interleave.Holding
import Rekuest.Interleave.Typestate
import Rekuest.Footprint
import Rekuest.ModelPersistBackend
import Rekuest.Tasks.Rows

/-!
# Rekuest.States.Locks

The locks of the agents under concurrency, statement by statement: lock and unlock messages,
reports, and everything the connections and the sweeps run.

* `LockCall`: these calls. An unlock message names no task; the one it is sent for is kept beside
  it, for the statements only.
* `Held`: who holds a key, in the rows. `holder`: the same, looked up.
* `Watched`: the system, and the acquisitions and releases that were made so far.
* `Declared`: a key that has a row. A lock message that finds none creates one, and nothing keeps two
  of them from doing so; `follows_code`: where the keys are declared, none does.
* `Sound`: in every run the rows are the register that `Hold.recorded` computes from the history.
* `Orderly`: nobody takes or frees the key of another, no done task takes a key, and no task ends
  while it holds one. Along such runs a key belongs to its holder.
-/

namespace Rekuest

open Interleave Interleave.Prog

/-! ## Runs -/

/-- What is locked: a key of an agent. -/
abbrev LockKey := AgentId × String

def Lock.lockKey (l : Lock) : LockKey := (l.agent, l.key)

inductive LockCall where
  | lock (agent : AgentId) (m : LockMessage)
  | unlock (agent : AgentId) (key : String) (sender : TaskId)
  | report (c : ReportCall)
  | connection (c : ConnectionCall)

def LockCall.code (S : Settings) (toPython : String → Except Error TaskId) :
    LockCall → Handler Unit
  | lock agent m => ModelPersistBackend.onAgentLock toPython agent m
  | unlock agent key _ => ModelPersistBackend.onAgentUnlock agent key
  | report c => c.code S
  | connection c => c.code S

/-- The task that a call unlocks for. -/
def LockCall.sender : LockCall → Option TaskId
  | unlock _ _ sender => some sender
  | _ => none

/-- The task that a statement ends. -/
def Stmt.ends? : Stmt → Option TaskId
  | .task (.save t u) => if u.done then some t else none
  | .task (.claimTransition t _ markDone _) => if markDone then some t else none
  | _ => none

/-- The statement writes locks. -/
def Stmt.onLocks : Stmt → Bool
  | .state (.updateLock ..) => true
  | .state (.createLock ..) => true
  | .state (.releaseLocks ..) => true
  | _ => false

def Stmt.KeepsLocks (c : Stmt) : Prop :=
  ∀ agent key task, c ≠ .state (.createLock agent key task)

/-- Neither the log of the states nor a lock is written. -/
def Stmt.Stateless : Stmt → Prop
  | .state _ => False
  | _ => True

/-- An answer where these keys have rows. -/
def Stmt.Finds (declared : LockKey → Prop) : (c : Stmt) → c.Ans → Prop
  | .state (.updateLock owner key _), updated => declared (owner, key) → updated ≠ Except.ok false
  | _, _ => True

namespace Locks

abbrev Conf := Sys Statements Error Unit Nat World

/-- The acquisition or release that a statement makes, where it takes effect. -/
def hold? (sender : Option TaskId) : (c : Stmt) → c.Ans → Option (Hold LockKey TaskId)
  | .state (.updateLock agent key task), .ok true => some (.acquire (agent, key) task)
  | .state (.createLock agent key task), .ok _ => some (.acquire (agent, key) task)
  | .state (.releaseLocks agent key), _ => some (.release (agent, key) sender)
  | _, _ => none

/-- The system in which process `n` runs call `calls n`. -/
structure Watched where
  calls : Nat → LockCall
  conf : Conf
  history : List (Hold LockKey TaskId) := []

namespace Watched

variable (S : Settings)

/-- What the next step of the process does to the locks. -/
def hold? (s : Watched) (e : Nat × Input) : Option (Hold LockKey TaskId) :=
  match s.conf.procs e.1 with
  | .stmt c _ => Locks.hold? (s.calls e.1).sender c (exec S e.2 c s.conf.shared).1
  | _ => none

def next (s : Watched) (e : Nat × Input) : Watched where
  calls := s.calls
  conf := s.conf.step (exec S) e
  history := s.history ++ (s.hold? S e).toList

def run (s : Watched) (sched : List (Nat × Input)) : Watched := sched.foldl (next S) s

abbrev db (s : Watched) : Database := s.conf.shared.db

end Watched

/-- The calls side by side, over this world. -/
def watch (S : Settings) (toPython : String → Except Error TaskId) (calls : Nat → LockCall)
    (w : World) : Watched where
  calls := calls
  conf := ⟨w, fun n => (calls n).code S toPython⟩

/-! ## Holders -/

/-- A row says that the task holds the key. -/
def Held (locks : Table Lock) (r : LockKey) (t : TaskId) : Prop :=
  ∃ id row, locks.get id = some row ∧ row.lockKey = r ∧ row.holdBy = some t

/-- The holder of a key: what the row of the key says. -/
def holder (locks : Table Lock) (r : LockKey) : Option TaskId :=
  (locks.select fun _ l => l.lockKey = r).head?.bind (·.2.holdBy)

section

variable {locks locks' : Table Lock} {agent : AgentId} {key : String} {t task : TaskId}
  {r : LockKey}

theorem holder_eq_some_iff (hu : locks.UniqueOn Lock.lockKey) :
    holder locks r = some t ↔ Held locks r t := by
  have hfind : ∀ {id : Nat} {row : Lock},
      (locks.select fun _ l => l.lockKey = r).head? = some (id, row) ↔
        locks.get id = some row ∧ row.lockKey = r := by
    intro id row
    refine (Table.head?_select_iff hu ?_).trans (by simp)
    intro a b ha hb
    exact (of_decide_eq_true ha).trans (of_decide_eq_true hb).symm
  constructor
  · intro h
    obtain ⟨x, hx, hheld⟩ := Option.bind_eq_some_iff.mp h
    obtain ⟨hget, hkey⟩ := hfind.mp hx
    exact ⟨x.1, x.2, hget, hkey, hheld⟩
  · rintro ⟨id, row, hget, hkey, hheld⟩
    rw [holder, hfind.mpr ⟨hget, hkey⟩]
    exact hheld

theorem match_iff (l : Lock) :
    (l.agent = agent && l.key = key) = true ↔ l.lockKey = (agent, key) := by
  simp [Lock.lockKey]

/-! ## Statements -/

/-- The rows after a lock message that found the row of its key. -/
abbrev acquireLock (locks : Table Lock) (id : Nat) (task : TaskId) : Table Lock :=
  locks.modify id fun l => { l with holdBy := some task }

/-- The update of an unlock message. -/
abbrev releaseLock (agent : AgentId) (key : String) (l : Lock) : Lock :=
  if l.agent = agent && l.key = key then { l with holdBy := none } else l

theorem get_acquireLock {id k : Nat} {after : Lock}
    (h : (acquireLock locks id task).get k = some after) :
    ∃ before, locks.get k = some before ∧ after.lockKey = before.lockKey ∧
      after.holdBy = if k = id then some task else before.holdBy := by
  by_cases hk : k = id
  · subst hk
    rw [Table.get_modify_self] at h
    obtain ⟨before, hbefore, rfl⟩ := Option.map_eq_some_iff.mp h
    exact ⟨before, hbefore, rfl, (if_pos rfl).symm⟩
  · rw [Table.get_modify_of_ne hk] at h
    exact ⟨after, h, rfl, (if_neg hk).symm⟩

theorem acquireLock_unique {id : Nat} (hu : locks.UniqueOn Lock.lockKey) :
    (acquireLock locks id task).UniqueOn Lock.lockKey := by
  intro j k a b hj hk hab
  obtain ⟨a', ha, hakey, _⟩ := get_acquireLock hj
  obtain ⟨b', hb, hbkey, _⟩ := get_acquireLock hk
  exact hu _ _ _ _ ha hb (hakey.symm.trans (hab.trans hbkey))

/-- The holders after a lock message that found the row of its key. -/
theorem held_acquireLock {id : Nat} {row : Lock} (hu : locks.UniqueOn Lock.lockKey)
    (hrow : locks.get id = some row) :
    Held (acquireLock locks id task) r t ↔ if r = row.lockKey then task = t else Held locks r t := by
  by_cases hr : r = row.lockKey
  · rw [if_pos hr]
    constructor
    · rintro ⟨k, after, hget, hkey, hheld⟩
      obtain ⟨before, hbefore, hsame, hholds⟩ := get_acquireLock hget
      rw [if_pos (hu _ _ _ _ hbefore hrow (hsame.symm.trans (hkey.trans hr)))] at hholds
      exact Option.some.inj (hholds.symm.trans hheld)
    · intro htask
      refine ⟨id, { row with holdBy := some task }, ?_, hr.symm, congrArg some htask⟩
      rw [Table.get_modify_self, hrow]
      rfl
  · rw [if_neg hr]
    constructor
    · rintro ⟨k, after, hget, hkey, hheld⟩
      obtain ⟨before, hbefore, hsame, hholds⟩ := get_acquireLock hget
      rw [if_neg] at hholds
      · exact ⟨k, before, hbefore, hsame.symm.trans hkey, hholds.symm.trans hheld⟩
      · intro hk
        rw [hk, hrow] at hbefore
        cases hbefore
        exact hr (hkey.symm.trans hsame)
    · rintro ⟨k, before, hget, hkey, hheld⟩
      refine ⟨k, before, (Table.get_modify_of_ne ?_).trans hget, hkey, hheld⟩
      intro hk
      rw [hk, hrow] at hget
      cases hget
      exact hr hkey.symm

theorem releaseLock_lockKey (l : Lock) : (releaseLock agent key l).lockKey = l.lockKey := by
  unfold releaseLock
  split <;> rfl

theorem releaseLock_unique (hu : locks.UniqueOn Lock.lockKey) :
    (locks.adjust (releaseLock agent key)).UniqueOn Lock.lockKey := by
  intro j k a b hj hk hab
  obtain ⟨a', ha, rfl⟩ := Option.map_eq_some_iff.mp hj
  obtain ⟨b', hb, rfl⟩ := Option.map_eq_some_iff.mp hk
  rw [releaseLock_lockKey, releaseLock_lockKey] at hab
  exact hu _ _ _ _ ha hb hab

/-- The holders after a release. -/
theorem held_releaseLock : Held (locks.adjust (releaseLock agent key)) r t ↔
    r ≠ (agent, key) ∧ Held locks r t := by
  constructor
  · rintro ⟨id, row, hget, hkey, hheld⟩
    obtain ⟨before, hbefore, rfl⟩ := Option.map_eq_some_iff.mp hget
    rw [releaseLock_lockKey] at hkey
    unfold releaseLock at hheld
    split at hheld
    · cases hheld
    · rename_i hother
      exact ⟨fun hr => hother ((match_iff before).mpr (hkey.trans hr)), id, before, hbefore, hkey,
        hheld⟩
  · rintro ⟨hr, id, row, hget, hkey, hheld⟩
    have hother : releaseLock agent key row = row :=
      if_neg fun h => hr (hkey.symm.trans ((match_iff row).mp h))
    exact ⟨id, row, by rw [Table.get_adjust, hget, Option.map_some, hother], hkey, hheld⟩

end

/-- The rows are this register: one row a key, and what it says. Who holds a key is a task. -/
structure Registers (db : Database) (h : Holders LockKey TaskId) : Prop where
  unique : db.locks.UniqueOn Lock.lockKey
  held : ∀ r t, Held db.locks r t ↔ h r = some t
  there : ∀ r t, h r = some t → (db.tasks.get t).isSome = true

section

variable {S : Settings} {i : Input} {w : World} {h : Holders LockKey TaskId}
  {sender : Option TaskId} {t : TaskId}

theorem exec_task_locks (c : TaskStmt) : (exec S i (.task c) w).2.db.locks = w.db.locks := by
  cases c with
  | create row =>
    simp only [exec, TaskStmt.exec]
    split <;> rfl
  | createEvent event =>
    simp only [exec, TaskStmt.exec]
    split <;> rfl
  | save id u => rfl
  | claimTransition id toKind markDone skip =>
    simp only [exec, TaskStmt.exec]
    split <;> rfl

theorem there_exec {c : Stmt} (ht : (w.db.tasks.get t).isSome = true) :
    ((exec S i c w).2.db.tasks.get t).isSome = true := by
  obtain ⟨task, htask⟩ := Option.isSome_iff_exists.mp ht
  obtain ⟨task', htask', _⟩ := evolves_exec (S := S) (i := i) (c := c) htask
  rw [htask']
  rfl

theorem exec_locks {c : Stmt} (h : c.onLocks = false) :
    (exec S i c w).2.db.locks = w.db.locks := by
  cases c with
  | state c =>
    cases c with
    | getOrCreateSession agent sessionId =>
      simp only [exec, StateStmt.exec]
      split
      · rfl
      · split <;> rfl
    | createPatch row =>
      simp only [exec, StateStmt.exec]
      split <;> rfl
    | createSnapshot row =>
      simp only [exec, StateStmt.exec]
      split <;> rfl
    | _ => cases h
  | read q => rfl
  | lease c =>
    obtain ⟨agents, hdb⟩ := LeaseStmt.exec_frame (S := S) (i := i) c w.db
    show (c.exec S i w.db).2.locks = _
    rw [hdb]
  | agent c =>
    obtain ⟨agents, pins, hdb⟩ := AgentStmt.exec_frame c w.db
    show (c.exec w.db).2.locks = _
    rw [hdb]
  | getOrCreateCaller identity =>
    simp only [exec]
    split <;> rfl
  | task c => exact exec_task_locks c
  | deliver c => exact congrArg Database.locks exec_deliver_db
  | timer c => exact congrArg Database.locks exec_timer_db

/-- A lock message gives the one row of its key to its task, finds no such row, or is refused. -/
theorem exec_updateLock (agent : AgentId) (key : String) (task : TaskId) :
    ((∀ id row, w.db.locks.get id = some row → row.lockKey ≠ (agent, key)) ∧
      exec S i (.state (.updateLock agent key task)) w = (.ok false, w)) ∨
    (∃ e, exec S i (.state (.updateLock agent key task)) w = (.error e, w)) ∨
    ∃ id row, w.db.locks.get id = some row ∧ row.lockKey = (agent, key) ∧
      (w.db.tasks.get task).isSome = true ∧
      exec S i (.state (.updateLock agent key task)) w =
        (.ok true, { w with db := { w.db with locks := acquireLock w.db.locks id task } }) := by
  have hmem : ∀ {id : Nat} {row : Lock},
      (id, row) ∈ w.db.locks.select (fun _ l => l.agent = agent && l.key = key) ↔
        w.db.locks.get id = some row ∧ row.lockKey = (agent, key) := by
    intro id row
    rw [Table.mem_select, match_iff]
  simp only [exec, StateStmt.exec]
  split
  · rename_i hnone
    refine .inl ⟨fun id row hget hkey => ?_, rfl⟩
    have hin := hmem.mpr ⟨hget, hkey⟩
    rw [hnone] at hin
    cases hin
  · rename_i id row hone
    obtain ⟨hget, hkey⟩ := hmem.mp (by rw [hone]; exact List.mem_singleton_self _)
    by_cases hrefused : (w.db.agents.get row.agent).isNone || !w.db.hasTask (some task)
    · rw [if_pos hrefused]
      exact .inr (.inl ⟨_, rfl⟩)
    · rw [if_neg hrefused]
      refine .inr (.inr ⟨id, row, hget, hkey, ?_, rfl⟩)
      simp only [Bool.or_eq_true, Bool.not_eq_true', not_or, Bool.not_eq_false] at hrefused
      exact hrefused.2
  · exact .inr (.inl ⟨_, rfl⟩)

/-- A statement that does nothing to the locks. -/
theorem Registers.of_locks (hr : Registers w.db h) {c : Stmt}
    (hlocks : (exec S i c w).2.db.locks = w.db.locks) : Registers (exec S i c w).2.db h where
  unique := by
    rw [hlocks]
    exact hr.unique
  held r t := by
    rw [hlocks]
    exact hr.held r t
  there r t ht := there_exec (hr.there r t ht)

theorem Registers.acquire (hr : Registers w.db h) (agent : AgentId) (key : String) (task : TaskId) :
    Registers (exec S i (.state (.updateLock agent key task)) w).2.db
      ((hold? sender (.state (.updateLock agent key task))
        (exec S i (.state (.updateLock agent key task)) w).1).elim h (Hold.record h)) := by
  rcases exec_updateLock (S := S) (i := i) (w := w) agent key task with
    ⟨_, heq⟩ | ⟨e, heq⟩ | ⟨id, row, hget, hkey, hthere, heq⟩
  · rw [heq]
    exact hr
  · rw [heq]
    exact hr
  · rw [heq]
    refine ⟨acquireLock_unique hr.unique, fun r t => ?_, fun r t ht => ?_⟩
    · refine (held_acquireLock hr.unique hget).trans ?_
      rw [hr.held, hkey]
      by_cases hr' : r = (agent, key)
      · subst hr'
        simp [hold?, Hold.record]
      · simp [hold?, Hold.record, hr']
    · by_cases hr' : r = (agent, key)
      · subst hr'
        have htask : task = t := by simpa [hold?, Hold.record] using ht
        rw [← htask]
        exact hthere
      · refine hr.there r t ?_
        simpa [hold?, Hold.record, hr'] using ht

theorem Registers.release (hr : Registers w.db h) (agent : AgentId) (key : String)
    (sender : Option TaskId) :
    Registers (exec S i (.state (.releaseLocks agent key)) w).2.db
      (Hold.record h (.release (agent, key) sender)) where
  unique := releaseLock_unique hr.unique
  held r t := by
    refine held_releaseLock.trans ?_
    rw [hr.held]
    by_cases hkey : r = (agent, key)
    · subst hkey
      simp [Hold.record]
    · rw [Hold.record_of_ne hkey]
      simp [hkey]
  there r t ht := by
    by_cases hkey : r = (agent, key)
    · subst hkey
      simp [Hold.record] at ht
    · rw [Hold.record_of_ne hkey] at ht
      exact there_exec (hr.there r t ht)

theorem hold?_of_not_onLocks {c : Stmt} (hc : c.onLocks = false) (a : c.Ans) :
    hold? sender c a = none := by
  cases c with
  | state c =>
    cases c with
    | updateLock => cases hc
    | createLock => cases hc
    | releaseLocks => cases hc
    | _ => rfl
  | _ => rfl

/-- **Step.** A statement that creates no lock acts on the register as it acts on the rows. -/
theorem registers_exec (hr : Registers w.db h) {c : Stmt} (hc : c.KeepsLocks) :
    Registers (exec S i c w).2.db
      ((hold? sender c (exec S i c w).1).elim h (Hold.record h)) := by
  cases honLocks : c.onLocks with
  | false =>
    rw [hold?_of_not_onLocks honLocks]
    exact hr.of_locks (exec_locks honLocks)
  | true =>
    cases c with
    | state c =>
      cases c with
      | updateLock agent key task => exact hr.acquire agent key task
      | createLock agent key task => exact (hc agent key task rfl).elim
      | releaseLocks agent key => exact hr.release agent key sender
      | _ => cases honLocks
    | _ => cases honLocks

/-! ## Keys with rows -/

/-- There is a row for the key. -/
def Declared (db : Database) (r : LockKey) : Prop :=
  ∃ id row, db.locks.get id = some row ∧ row.lockKey = r

theorem declared_exec {r : LockKey} (hr : Declared w.db r) (c : Stmt) :
    Declared (exec S i c w).2.db r := by
  obtain ⟨id, row, hget, hkey⟩ := hr
  cases honLocks : c.onLocks with
  | false => exact ⟨id, row, by rw [exec_locks honLocks, hget], hkey⟩
  | true =>
    cases c with
    | state c =>
      cases c with
      | updateLock agent key task =>
        rcases exec_updateLock (S := S) (i := i) (w := w) agent key task with
          ⟨_, heq⟩ | ⟨e, heq⟩ | ⟨id', row', _, _, _, heq⟩
        · rw [heq]
          exact ⟨id, row, hget, hkey⟩
        · rw [heq]
          exact ⟨id, row, hget, hkey⟩
        · rw [heq]
          by_cases hid : id = id'
          · refine ⟨id, { row with holdBy := some task }, ?_, hkey⟩
            rw [← hid]
            exact Table.get_modify_self.trans (by rw [hget]; rfl)
          · exact ⟨id, row, (Table.get_modify_of_ne hid).trans hget, hkey⟩
      | createLock agent key task =>
        simp only [exec, StateStmt.exec]
        split
        · exact ⟨id, row, hget, hkey⟩
        · exact ⟨id, row, Table.get_insert_of_get hget, hkey⟩
      | releaseLocks agent key =>
        refine ⟨id, releaseLock agent key row, ?_, (releaseLock_lockKey row).trans hkey⟩
        exact Table.get_adjust.trans (by rw [hget]; rfl)
      | _ => cases honLocks
    | _ => cases honLocks

/-- A handler under which no lock is created: each lock message finds a row, for these keys have
one. -/
def declares (declared : LockKey → Prop) : Prog.Protocol Statements Unit where
  allows _ c := c.KeepsLocks
  next _ _ _ := ()
  real c a := c.Finds declared a

theorem real_exec {declared : LockKey → Prop} (hd : ∀ r, declared r → Declared w.db r) (c : Stmt) :
    c.Finds declared (exec S i c w).1 := by
  cases c with
  | state c =>
    cases c with
    | updateLock agent key task =>
      intro hr hfalse
      rcases exec_updateLock (S := S) (i := i) (w := w) agent key task with
        ⟨hnone, _⟩ | ⟨e, heq⟩ | ⟨id, row, _, _, _, heq⟩
      · obtain ⟨id, row, hget, hkey⟩ := hd _ hr
        exact hnone id row hget hkey
      · rw [heq] at hfalse
        cases hfalse
      · rw [heq] at hfalse
        cases hfalse
    | _ => trivial
  | _ => trivial

theorem stateless_built :
    PersistBackend.Built fun _ p => Prog.Issues (L := Statements) Stmt.Stateless p where
  toCompositional := Issues.compositional
  read _ := .issue trivial
  timer _ := .issue trivial
  send _ _ := .issue trivial
  caller _ := .issue trivial
  claim _ _ _ _ := .issue trivial
  revoke _ := .issue trivial
  cascade _ _ := by
    refine PersistBackend.orphanCascade_built Issues.compositional (.issue trivial) fun _ =>
      PersistBackend.failAndCascade_issues.mono fun c hc => ?_
    cases c with
    | state c => exact hc.elim
    | _ => trivial

/-- What the other calls do does not bear on the locks. -/
theorem stateless (c : TaskCall) : Prog.Issues (L := Statements) Stmt.Stateless (c.code S) := by
  cases c with
  | connection c =>
    exact stateless_built.connectionCall (fun _ _ _ => .issue trivial)
      fun _ _ _ _ => stateless_built.sweeps.onAgentDisconnected (.issue trivial)
  | report c =>
    refine c.issues.mono fun st hst => ?_
    cases st with
    | state c => exact hst.elim
    | _ => trivial

theorem follows_stateless {declared : LockKey → Prop} (c : TaskCall) :
    (c.code S).Follows (declares declared) () () := by
  refine .of_issues (fun st hst => ⟨?_, fun _ => rfl⟩) (stateless c)
  intro agent key task heq
  rw [heq] at hst
  exact hst

theorem follows_code {toPython : String → Except Error TaskId} {declared : LockKey → Prop}
    (c : LockCall) (hd : ∀ agent m, c = .lock agent m → declared (agent, m.key)) :
    (c.code S toPython).Follows (declares declared) () () := by
  cases c with
  | lock agent m =>
    show (ModelPersistBackend.onAgentLock toPython agent m).Follows _ _ _
    unfold ModelPersistBackend.onAgentLock ModelPersistBackend.readId
    cases toPython m.task with
    | error e => exact rfl
    | ok id =>
      refine ⟨(by intro _ _ _ heq; cases heq), fun task _ => ?_⟩
      cases task with
      | none => exact rfl
      | some task =>
        refine ⟨(by intro _ _ _ heq; cases heq), fun updated hfinds => ?_⟩
        match updated with
        | .error e => exact rfl
        | .ok true => exact rfl
        | .ok false => exact absurd rfl (hfinds (hd agent m rfl))
  | unlock agent key sender => exact ⟨(by intro _ _ _ heq; cases heq), fun _ _ => rfl⟩
  | report c => exact follows_stateless (.report c)
  | connection c => exact follows_stateless (.connection c)

/-! ## Tasks that end -/

def Open (db : Database) (t : TaskId) : Prop :=
  ∃ row, db.tasks.get t = some row ∧ row.isDone = false

theorem open_exec {c : Stmt} (hopen : Open w.db t) (hends : c.ends? ≠ some t) :
    Open (exec S i c w).2.db t := by
  obtain ⟨row, hrow, hdone⟩ := hopen
  by_cases hwrites : c.writesOn = some t
  · cases c with
    | task c =>
      cases c with
      | create row' => cases hwrites
      | createEvent event =>
        refine ⟨row, ?_, hdone⟩
        rw [exec_task_db, createEvent_tasks, hrow]
      | save id u =>
        cases hwrites
        have hu : u.done = false := by
          cases hu : u.done with
          | false => rfl
          | true => exact absurd (if_pos hu) hends
        refine ⟨u.apply i.now row, ?_, by simp [TaskUpdate.apply, hdone, hu]⟩
        rw [exec_task_db, get_save, if_pos rfl, hrow]
        rfl
      | claimTransition id toKind markDone skip =>
        cases hwrites
        have hmark : markDone = false := by
          cases hm : markDone with
          | false => rfl
          | true => exact absurd (by rw [hm]; rfl) hends
        refine ⟨(row.claimTransition i.now toKind markDone skip).2, ?_, ?_⟩
        · rw [exec_task_db, get_claimTransition, if_pos rfl, hrow]
          rfl
        · unfold Task.claimTransition
          split
          · exact hdone
          · simp [TaskUpdate.apply, hdone, hmark]
    | _ => cases hwrites
  · exact ⟨row, (exec_aside hwrites hrow).1, hdone⟩

end

/-! ## Runs -/

theorem Registers.holder_eq {db : Database} {h : Holders LockKey TaskId} (hr : Registers db h)
    (r : LockKey) : holder db.locks r = h r := by
  ext t
  exact (holder_eq_some_iff hr.unique).trans (hr.held r t)

namespace Watched

variable {S : Settings} {s : Watched} {e : Nat × Input}

/-- The task that the next step of the process ends. -/
def ends? (s : Watched) (e : Nat × Input) : Option TaskId :=
  match s.conf.procs e.1 with
  | .stmt c _ => c.ends?
  | _ => none

/-- A step is the next statement of its process, or nothing. -/
theorem next_cases (S : Settings) (s : Watched) (e : Nat × Input) :
    ((s.next S e).db = s.db ∧ s.hold? S e = none) ∨
      ∃ c k, s.conf.procs e.1 = .stmt c k ∧
        (s.next S e).db = (exec S e.2 c s.conf.shared).2.db ∧ s.ends? e = c.ends? ∧
        s.hold? S e = Locks.hold? (s.calls e.1).sender c (exec S e.2 c s.conf.shared).1 := by
  cases hp : s.conf.procs e.1 with
  | ret a => exact .inl ⟨by simp [next, db, Sys.step, hp], by simp [hold?, hp]⟩
  | fail x => exact .inl ⟨by simp [next, db, Sys.step, hp], by simp [hold?, hp]⟩
  | stmt c k =>
    refine .inr ⟨c, k, rfl, ?_, by simp [ends?, hp], by simp [hold?, hp]⟩
    show (s.conf.step (exec S) e).shared.db = _
    rw [Sys.step_stmt hp]
    rfl

theorem recorded_next (S : Settings) (s : Watched) (e : Nat × Input) :
    Hold.recorded (s.next S e).history =
      (s.hold? S e).elim (Hold.recorded s.history) (Hold.record (Hold.recorded s.history)) := by
  cases hh : s.hold? S e with
  | none => simp [next, hh]
  | some h => simp [next, hh, Hold.recorded_append]

/-- The rows are the register, and no process is about to create a row. -/
structure Sound (declared : LockKey → Prop) (s : Watched) : Prop where
  registers : Registers s.db (Hold.recorded s.history)
  rows : ∀ r, declared r → Declared s.db r
  follows : ∀ n, (s.conf.procs n).Follows (declares declared) () ()

theorem Sound.next {declared : LockKey → Prop} (hs : Sound declared s) (e : Nat × Input) :
    Sound declared (s.next S e) where
  registers := by
    rw [recorded_next]
    rcases next_cases S s e with ⟨hdb, hh⟩ | ⟨c, k, hp, hdb, _, hh⟩
    · rw [hdb, hh]
      exact hs.registers
    · have hc := hs.follows e.1
      rw [hp] at hc
      rw [hdb, hh]
      exact registers_exec hs.registers hc.1
  rows r hr := by
    rcases next_cases S s e with ⟨hdb, _⟩ | ⟨c, k, _, hdb, _⟩
    · rw [hdb]
      exact hs.rows r hr
    · rw [hdb]
      exact declared_exec (hs.rows r hr) c
  follows n := by
    show ((s.conf.step (exec S) e).procs n).Follows _ _ _
    rcases Sys.step_cases (exec S) s.conf e with hstay | ⟨c, k, hp, hstep⟩
    · rw [hstay]
      exact hs.follows n
    · rw [hstep]
      by_cases hn : n = e.1
      · have hc := hs.follows e.1
        rw [hp] at hc
        rw [hn, Sys.put_self]
        exact hc.2 _ (real_exec hs.rows c)
      · rw [Sys.put_other _ hn]
        exact hs.follows n

theorem Sound.run {declared : LockKey → Prop} (hs : Sound declared s)
    (sched : List (Nat × Input)) : Sound declared (s.run S sched) := by
  induction sched generalizing s with
  | nil => exact hs
  | cons e sched ih => exact ih (hs.next e)

variable (S)

/-- Nobody takes or frees the key of another, no done task takes a key, and no task ends while it
holds one. -/
structure Orderly (s : Watched) (e : Nat × Input) : Prop where
  polite : ∀ h, s.hold? S e = some h → Hold.Polite (holder s.db.locks) h
  «open» : ∀ r t, s.hold? S e = some (.acquire r t) → Open s.db t
  unheld : ∀ t, s.ends? e = some t → ∀ r, holder s.db.locks r ≠ some t

/-- The holder of a key is an open task: the one that took it last and has not freed it itself. -/
def Owned (s : Watched) : Prop :=
  ∀ r t, holder s.db.locks r = some t → Open s.db t ∧ Hold.owned s.history r = some t

/-- No message that is sent for another task changes the holder of a key. -/
def Kept (s : Watched) (e : Nat × Input) : Prop :=
  ∀ h, s.hold? S e = some h → ∀ r t, holder s.db.locks r = some t → h.sender ≠ some t →
    holder (s.next S e).db.locks r = some t

/-- What the rows of the locks say, whoever sends what: one row a key, and the holder is the task
of the last lock message for the key that no unlock message for the key has followed. -/
structure Recorded (s : Watched) : Prop where
  unique : s.db.locks.UniqueOn Lock.lockKey
  holder : ∀ r, holder s.db.locks r = Hold.recorded s.history r
  there : ∀ r t, Locks.holder s.db.locks r = some t → (s.db.tasks.get t).isSome = true

variable {S} {declared : LockKey → Prop}

/-- The register, and ownership over it. -/
structure Inv (declared : LockKey → Prop) (s : Watched) : Prop extends Sound declared s where
  owned : Hold.owned s.history = Hold.recorded s.history
  «open» : ∀ r t, Hold.recorded s.history r = some t → Open s.db t

theorem open_next {t : TaskId} (hopen : Open s.db t) (hends : s.ends? e ≠ some t) :
    Open (s.next S e).db t := by
  rcases next_cases S s e with ⟨hdb, _⟩ | ⟨c, k, _, hdb, hc, _⟩
  · rw [hdb]
    exact hopen
  · rw [hdb]
    exact open_exec hopen fun h => hends (hc.trans h)

/-- What acts on a lock ends no task. -/
theorem ends?_of_hold {h : Hold LockKey TaskId} (hh : s.hold? S e = some h) :
    s.ends? e = none := by
  rcases next_cases S s e with ⟨_, hnone⟩ | ⟨c, k, _, _, hc, hhold⟩
  · rw [hnone] at hh
    cases hh
  · rw [hhold] at hh
    rw [hc]
    cases c with
    | state c => rfl
    | _ => cases hh

/-- A step that neither acts on a lock nor ends a task. -/
theorem Orderly.idle (hhold : s.hold? S e = none) (hends : s.ends? e = none) : s.Orderly S e where
  polite h hh := by
    rw [hhold] at hh
    cases hh
  «open» r t hh := by
    rw [hhold] at hh
    cases hh
  unheld t ht := by
    rw [hends] at ht
    cases ht

theorem Orderly.act {h : Hold LockKey TaskId} (hhold : s.hold? S e = some h)
    (hpolite : Hold.Polite (holder s.db.locks) h)
    (hopen : ∀ r t, h = .acquire r t → Open s.db t) : s.Orderly S e where
  polite h' hh := by
    cases hhold.symm.trans hh
    exact hpolite
  «open» r t hh := hopen r t (Option.some.inj (hhold.symm.trans hh))
  unheld t ht := by
    rw [ends?_of_hold hhold] at ht
    cases ht

theorem Inv.next (hi : Inv declared s) (ho : s.Orderly S e) : Inv declared (s.next S e) := by
  have hholder : holder s.db.locks = Hold.recorded s.history := funext hi.registers.holder_eq
  have hopen : ∀ r t, Hold.recorded s.history r = some t → Open (s.next S e).db t := by
    intro r t ht
    refine open_next (hi.open r t ht) fun hends => ho.unheld t hends r ?_
    rw [hholder, ht]
  refine ⟨hi.toSound.next e, ?_, ?_⟩
  · rw [recorded_next]
    cases hh : s.hold? S e with
    | none => simpa [Watched.next, hh] using hi.owned
    | some h =>
      have hp := ho.polite h hh
      rw [hholder] at hp
      rw [show (s.next S e).history = s.history ++ [h] by simp [Watched.next, hh],
        Hold.owned_append, hi.owned]
      exact Hold.own_eq_record hp
  · intro r t ht
    rw [recorded_next] at ht
    cases hh : s.hold? S e with
    | none =>
      rw [hh] at ht
      exact hopen r t ht
    | some h =>
      rw [hh] at ht
      by_cases hr : r = h.resource
      · subst hr
        cases h with
        | acquire r' t' =>
          have htask : t' = t := by simpa [Hold.record, Hold.resource] using ht
          subst htask
          refine open_next (ho.open r' t' hh) ?_
          rw [ends?_of_hold hh]
          simp
        | release r' sender => simp [Hold.record, Hold.resource] at ht
      · rw [Option.elim_some, Hold.record_of_ne hr] at ht
        exact hopen r t ht

theorem Inv.owned_of (hi : Inv declared s) : s.Owned := by
  intro r t ht
  rw [hi.registers.holder_eq] at ht
  exact ⟨hi.open r t ht, by rw [hi.owned, ht]⟩

theorem Inv.kept (hi : Inv declared s) (ho : s.Orderly S e) : s.Kept S e := by
  intro h hh r t ht hother
  rw [(hi.toSound.next e).registers.holder_eq, recorded_next, hh, Option.elim_some]
  have hholder : holder s.db.locks = Hold.recorded s.history := funext hi.registers.holder_eq
  have hp := ho.polite h hh
  rw [hholder] at hp ht
  exact Hold.record_kept hp ht hother

theorem Inv.run (hi : Inv declared s) {sched : List (Nat × Input)}
    (ho : Along (Watched.next S) (Orderly S) s sched) :
    Inv declared (s.run S sched) ∧ Along (Watched.next S) (Kept S) s sched := by
  induction sched generalizing s with
  | nil => exact ⟨hi, trivial⟩
  | cons e sched ih =>
    obtain ⟨hend, hkept⟩ := ih (hi.next ho.1) ho.2
    exact ⟨hend, hi.kept ho.1, hkept⟩

end Watched

/-! ## Results -/

/-- Before any call: one row a key, and nobody holds one. -/
theorem registers_initial {db : Database} (hunique : db.locks.UniqueOn Lock.lockKey)
    (hfree : ∀ id row, db.locks.get id = some row → row.holdBy = none) :
    Registers db (Hold.recorded []) where
  unique := hunique
  held r t := by
    constructor
    · rintro ⟨id, row, hget, _, hheld⟩
      rw [hfree id row hget] at hheld
      cases hheld
    · nofun
  there _ _ := nofun

/-- **Lock ownership.** Where each lock message names a key that has a row, in every run there is one
row a key, and its holder is the task of the last lock message for the key that no unlock message for
the key has followed; nothing else changes a holder. Along orderly runs a key belongs to its holder: it
is open, it took the key last and has not freed it, and no message for another task takes it away. -/
theorem lock_ownership (S : Settings) (toPython : String → Except Error TaskId)
    (calls : Nat → LockCall) {w : World} (hunique : w.db.locks.UniqueOn Lock.lockKey)
    (hfree : ∀ id row, w.db.locks.get id = some row → row.holdBy = none)
    (hdeclared : ∀ n agent m, calls n = .lock agent m → Declared w.db (agent, m.key))
    (sched : List (Nat × Input)) :
    ((watch S toPython calls w).run S sched).Recorded ∧
    (Along (Watched.next S) (Watched.Orderly S) (watch S toPython calls w) sched →
      ((watch S toPython calls w).run S sched).Owned ∧
      Along (Watched.next S) (Watched.Kept S) (watch S toPython calls w) sched) := by
  have hstart : Watched.Sound (Declared w.db) (watch S toPython calls w) :=
    ⟨registers_initial hunique hfree, fun _ hr => hr, fun n => follows_code _ (hdeclared n)⟩
  refine ⟨?_, fun ho => ?_⟩
  · have hend := (hstart.run (S := S) sched).registers
    refine ⟨hend.unique, hend.holder_eq, fun r t ht => hend.there r t ?_⟩
    rw [← hend.holder_eq, ht]
  · have hi : Watched.Inv (Declared w.db) (watch S toPython calls w) :=
      ⟨hstart, rfl, fun _ _ => nofun⟩
    obtain ⟨hend, hkept⟩ := hi.run ho
    exact ⟨hend.owned_of, hkept⟩

/-- Agent 1, its open tasks 1 and 2, and no lock. -/
def bareWorld : World :=
  { runningWorld .none with db := { (runningWorld .none).db with
      tasks := (runningWorld .none).db.tasks.insert {
        implementation := some 1, action := 1, reference := "other", agent := 1
        latestEventKind := .started, latestInstructKind := .assign } } }

/-- The same with the one lock that the agent has declared. -/
def lockWorld : World :=
  { bareWorld with db := { bareWorld.db with
      locks := bareWorld.db.locks.insert { agent := 1, key := "stage" } } }

/-- The ids that the calls below name. -/
def readTask (text : String) : Except Error TaskId := if text = "1" then .ok 1 else .ok 2

def lockCalls : Nat → LockCall
  | 0 => .lock 1 ⟨"stage", "1"⟩
  | 1 => .lock 1 ⟨"stage", "2"⟩
  | 2 => .unlock 1 "stage" 2
  | 3 => .unlock 1 "stage" 1
  | _ => .report (.report 0 ⟨1, none, 1, .completed⟩)

theorem lockWorld_locks {id : Nat} {row : Lock} (h : lockWorld.db.locks.get id = some row) :
    id = 1 ∧ row = { agent := 1, key := "stage" } := by
  rcases Table.get_insert_cases h with ⟨hid, hrow⟩ | ⟨_, hnone⟩
  · exact ⟨hid, hrow⟩
  · cases hnone

theorem lockCalls_declared (n : Nat) (agent : AgentId) (m : LockMessage)
    (h : lockCalls n = .lock agent m) : Declared lockWorld.db (agent, m.key) := by
  match n with
  | 0 =>
    cases h
    exact ⟨1, _, rfl, rfl⟩
  | 1 =>
    cases h
    exact ⟨1, _, rfl, rfl⟩
  | 2 => cases h
  | 3 => cases h
  | _ + 4 => cases h

/-- Task 1 takes the key and frees it, and task 2 takes it. -/
theorem lock_ownership_handed :
    let s := (watch {} readTask lockCalls lockWorld).run {} ([0, 0, 3, 1, 1].map fun n => (n, {}))
    s.Recorded ∧ s.Owned ∧ holder s.db.locks (1, "stage") = some 2 := by
  obtain ⟨hrecorded, howned⟩ := lock_ownership {} readTask lockCalls
    (by
      intro j k a b hj hk _
      rw [(lockWorld_locks hj).1, (lockWorld_locks hk).1])
    (by
      intro id row h
      rw [(lockWorld_locks h).2])
    lockCalls_declared ([0, 0, 3, 1, 1].map fun n => (n, {}))
  refine ⟨hrecorded, (howned ?_).1, rfl⟩
  refine ⟨.idle rfl rfl, .act rfl (.inl rfl) ?_, .act rfl (.inr rfl) ?_, .idle rfl rfl,
    .act rfl (.inl rfl) ?_, trivial⟩
  · intro r t h
    cases h
    exact ⟨_, rfl, rfl⟩
  · intro r t h
    cases h
  · intro r t h
    cases h
    exact ⟨_, rfl, rfl⟩

/-- Task 1 takes the key. Task 2 takes it over; or an unlock for task 2 frees it; or task 1 ends and
holds it still. And where the agent has not declared the key, both find no row, and create one. -/
theorem lock_not_owned :
    ¬ Along (Watched.next {}) (Watched.Kept {}) (watch {} readTask lockCalls lockWorld)
      ([0, 0, 1, 1].map fun n => (n, {})) ∧
    ¬ Along (Watched.next {}) (Watched.Kept {}) (watch {} readTask lockCalls lockWorld)
      ([0, 0, 2].map fun n => (n, {})) ∧
    ¬ ((watch {} readTask lockCalls lockWorld).run {}
      ([0, 0, 4, 4, 4, 4, 4].map fun n => (n, {}))).Owned ∧
    ¬ ((watch {} readTask lockCalls bareWorld).run {}
      ([0, 0, 1, 1, 0, 1].map fun n => (n, {}))).db.locks.UniqueOn Lock.lockKey := by
  refine ⟨fun h => ?_, fun h => ?_, fun h => ?_, fun h => ?_⟩
  · have hkept := h.2.2.2.1 (.acquire (1, "stage") 2) rfl (1, "stage") 1 rfl (by decide)
    cases hkept
  · have hkept := h.2.2.1 (.release (1, "stage") (some 2)) rfl (1, "stage") 1 rfl (by decide)
    cases hkept
  · obtain ⟨⟨row, hrow, hopen⟩, _⟩ := h (1, "stage") 1 rfl
    cases hrow
    cases hopen
  · cases h 1 2 _ _ rfl rfl rfl

end Locks
end Rekuest
