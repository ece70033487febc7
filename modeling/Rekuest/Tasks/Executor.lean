import Rekuest.Interleave.Duties
import Rekuest.Tasks.Interrupt

/-!
# Rekuest.Tasks.Executor

Whether control requests reach the agent that runs the task, whatever runs side by side.

* `Informed`: a control message is about a task whose Assign its agent was handed before.
  `ChildTold`: a control operation on an open wrapper has told its open child.
* `contract`: a control message goes to the agent of its task. `dueTo`: a task that is stored is a
  virtual wrapper, or its Assign is handed out before the assign returns.
* `control_reaches_executor`: both hold along every run whose control requests are about tasks that
  are no virtual wrappers and whose assign has returned.
-/

namespace Rekuest
namespace Executor

open Interleave Interleave.Prog
open Backend (ControlOp)
open Requeue (addressable)
open Virtual (isVirtual isVirtual_iff)

/-! ## What is observed -/

/-- The agent was handed an Assign of the task. -/
def AssignedTo (t : TaskId) (a : AgentId) (w : World) : Prop :=
  ∃ m ∈ w.pushed ++ w.posted, m.1 = a ∧ m.2.assigned? = some t

instance (t : TaskId) (a : AgentId) (w : World) : Decidable (AssignedTo t a w) :=
  inferInstanceAs (Decidable (∃ m ∈ w.pushed ++ w.posted, _))

/-- The calls, process by process. -/
abbrev Conf := Sys Statements Error Unit Nat World

/-- The control message that the step hands out is for a task whose Assign its agent was handed. -/
def Informed (c : Conf) (e : Nat × Input) : Prop :=
  ∀ st ∈ (c.procs e.1).next?, ∀ x ∈ st.controls, AssignedTo x.2 x.1 c.shared

instance (c : Conf) (e : Nat × Input) : Decidable (Informed c e) :=
  inferInstanceAs (Decidable (∀ st ∈ (c.procs e.1).next?, ∀ x ∈ st.controls, _))

/-- The operation of a control request, and its target. -/
def control? : Call → Option (ControlOp × TaskId)
  | .postman (.control op id) => some (op, id)
  | .postman (.callerControl _ op id) => some (op, id)
  | .postman (.callerCancel _ _ id _) => some (.cancel, id)
  | .postman (.escalate id) => some (.interrupt, id)
  | _ => none

/-- The open tasks under an open virtual wrapper were told of the operation. -/
def Told (op : ControlOp) (id : TaskId) (w : World) : Prop :=
  ∀ wrapper, w.db.tasks.get id = some wrapper → w.db.Virtual wrapper → wrapper.isDone = false →
    ∀ child row, w.db.tasks.get child = some row → row.root = some id → row.isDone = false →
      (row.agent, op.toAgent child) ∈ w.pushed ++ w.posted

/-- Where the step is the last of a control request, and it did not raise, its target was told. -/
def ChildTold (S : Settings) (calls : Nat → Call) (c : Conf) (e : Nat × Input) : Prop :=
  (c.procs e.1).next?.isSome = true → (c.step (exec S) e).procs e.1 = .ret () →
    ∀ op id, control? (calls e.1) = some (op, id) → Told op id (c.step (exec S) e).shared

/-! ## The condition -/

/-- The task that the statement of a control request marks, or tells its agent of. -/
def tells : Stmt → Option TaskId
  | .task (.save id u) => u.latestInstructKind.map fun _ => id
  | c => c.controls.map (·.2)

def isAssign : Call → Bool
  | .postman (.assign ..) => true
  | .postman (.callerAssign ..) => true
  | _ => false

/-- The task is there, and no virtual wrapper. -/
def real (db : Database) (t : TaskId) : Bool := (db.tasks.get t).any fun task => !isVirtual db task

/-- Some task is one of the agent's. -/
def works (db : Database) (a : AgentId) : Bool :=
  !(db.tasks.select fun _ task => task.agent = a).isEmpty

/-- The agent that the statement looks at, if it is one that has tasks, has an address. -/
def reachable (w : World) : Stmt → Bool
  | .read (.agent a) => !works w.db a || addressable a w
  | _ => true

/-- A control request is about no virtual wrapper. An assign reads of the agents that have tasks how
to address them. -/
def Proper (call : Call) (c : Stmt) (w : World) : Prop :=
  (∀ t ∈ tells c, real w.db t = true) ∧ (isAssign call = true → reachable w c = true)

instance (call : Call) (c : Stmt) (w : World) : Decidable (Proper call c w) :=
  inferInstanceAs (Decidable ((∀ t ∈ tells c, _) ∧ (_ → _)))

/-- A task that was not there, and now is. -/
def stored (w w' : World) (t : TaskId) : Bool :=
  (w.db.tasks.get t).isNone && (w'.db.tasks.get t).isSome

/-- The calls, and the call that stored each task. -/
abbrev Log := Traced Statements Error Unit Nat World TaskId

/-- A control request is about tasks whose assign has returned. -/
def Heeds (calls : Nat → Call) (r : Log) (e : Nat × Input) : Prop :=
  ∀ st ∈ (r.sys.procs e.1).next?, Proper (calls e.1) st r.sys.shared ∧
    ∀ t ∈ tells st, ∀ p ∈ r.origin t, (r.sys.procs p).value?.isSome = true

instance (calls : Nat → Call) (r : Log) (e : Nat × Input) : Decidable (Heeds calls r e) :=
  inferInstanceAs (Decidable (∀ st ∈ (r.sys.procs e.1).next?, _ ∧ ∀ t ∈ tells st,
    ∀ p ∈ r.origin t, _))

variable {S : Settings} {call : Call} {w w' w'' : World} {t id : TaskId} {a : AgentId}
  {mine : TaskId → Prop} {α β : Type}

/-! ## What others do -/

/-- The tasks and the messages of the earlier world are still there. -/
structure Later (w w' : World) : Prop where
  evolves : w.db.Evolves w'.db
  pushed : w.pushed ⊆ w'.pushed
  posted : w.posted ⊆ w'.posted

theorem later_exec {i : Input} {c : Stmt} : Later w (exec S i c w).2 := by
  have hsame : ∀ w' : World, w.db.Evolves w'.db → w'.pushed = w.pushed → w'.posted = w.posted →
      Later w w' := fun w' hev hpushed hposted =>
    ⟨hev, fun m hm => by rw [hpushed]; exact hm, fun m hm => by rw [hposted]; exact hm⟩
  cases c with
  | read q => exact hsame _ exec_evolves rfl rfl
  | lease c => exact hsame _ exec_evolves rfl rfl
  | agent c => exact hsame _ exec_evolves rfl rfl
  | task c => exact hsame _ exec_evolves rfl rfl
  | state c => exact hsame _ exec_evolves rfl rfl
  | timer c => cases c <;> exact hsame _ exec_evolves rfl rfl
  | getOrCreateCaller identity =>
    refine hsame _ exec_evolves ?_ ?_ <;>
    · simp only [exec]
      split <;> rfl
  | deliver c =>
    cases c with
    | push a m => exact ⟨exec_evolves, fun m hm => List.mem_append_left _ hm, fun m hm => hm⟩
    | post a m => exact ⟨exec_evolves, fun m hm => hm, fun m hm => List.mem_append_left _ hm⟩
    | send connection m => exact hsame _ exec_evolves rfl rfl

theorem later (S : Settings) : Rely (exec S) (fun _ => True) Later where
  refl _ := ⟨.refl, fun _ => id, fun _ => id⟩
  trans h h' := ⟨h.evolves.trans h'.evolves, fun _ hm => h'.pushed (h.pushed hm),
    fun _ hm => h'.posted (h.posted hm)⟩
  step _ _ _ _ := later_exec

theorem AssignedTo.later (h : AssignedTo t a w) (hw : Later w w') : AssignedTo t a w' := by
  obtain ⟨m, hm, hto⟩ := h
  refine ⟨m, ?_, hto⟩
  obtain hm | hm := List.mem_append.mp hm
  · exact List.mem_append_left _ (hw.pushed hm)
  · exact List.mem_append_right _ (hw.posted hm)

theorem virtual_later {task task' : Task} (h : w.db.Virtual task) (hw : Later w w')
    (he : task.Evolves task') : w'.db.Virtual task' := by
  obtain ⟨⟨i, impl, hi, himpl, hho⟩, hroot⟩ := h
  refine ⟨⟨i, impl, ?_, ?_, hho⟩, ?_⟩
  · rw [he.implementation_eq, hi]
  · rw [hw.evolves.implementations, himpl]
  · rw [he.root_eq, hroot]

/-- A stored task is of the agent. -/
def OfAgent (t : TaskId) (a : AgentId) (w : World) : Prop :=
  ∃ task, w.db.tasks.get t = some task ∧ task.agent = a

theorem OfAgent.later (h : OfAgent t a w) (hw : Later w w') : OfAgent t a w' := by
  obtain ⟨task, hg, ha⟩ := h
  obtain ⟨task', hg', he⟩ := hw.evolves.tasks hg
  exact ⟨task', hg', he.agent_eq.trans ha⟩

/-! ## What is due -/

/-- A task is a virtual wrapper, or is to be handed to its agent. -/
def dueTo : Duties World TaskId where
  rely := Later
  born := stored
  kept t w := ∃ task, w.db.tasks.get t = some task ∧
    (w.db.Virtual task ∨ AssignedTo t task.agent w)

theorem kept_later (h : dueTo.kept t w) (hw : Later w w') : dueTo.kept t w' := by
  obtain ⟨task, hg, h⟩ := h
  obtain ⟨task', hg', he⟩ := hw.evolves.tasks hg
  refine ⟨task', hg', ?_⟩
  obtain hvirtual | hassigned := h
  · exact .inl (virtual_later hvirtual hw he)
  · rw [he.agent_eq]
    exact .inr (hassigned.later hw)

/-- The task is no open virtual wrapper. -/
def Settled (id : TaskId) (w : World) : Prop :=
  ∀ task, w.db.tasks.get id = some task → w.db.Virtual task → task.isDone = true

/-- A control message goes to the agent of its task. A control request that does not raise ends where
its target is no open virtual wrapper. -/
def contract (call : Call) : Contract Statements Input World Error Unit where
  asked _ c w := Proper call c w
  promised c w := ∀ x ∈ c.controls, OfAgent x.2 x.1 w
  post r w := r = .ok () → ∀ op id, control? call = some (op, id) → Settled id w

/-- The program keeps the contract, with another end. -/
abbrev Holds (S : Settings) (call : Call) (p : Handler α) (P : Except Error α → World → Prop)
    (mine : TaskId → Prop) (w : World) : Prop :=
  Fulfils (exec S) dueTo ((contract call).until P) p mine w

theorem promised_none {c : Stmt} (h : c.controls = none) : ∀ x ∈ c.controls, OfAgent x.2 x.1 w := by
  intro x hx
  rw [h] at hx
  cases hx

theorem stored_none {i : Input} {c : Stmt} (h : ∀ row, c ≠ .task (.create row)) :
    stored w (exec S i c w).2 t = false := by
  cases hg : w.db.tasks.get t with
  | some task => simp [stored, hg]
  | none =>
    cases hg' : (exec S i c w).2.db.tasks.get t with
    | none => simp [stored, hg']
    | some task' =>
      obtain ⟨task, hold, _⟩ | ⟨hc, _⟩ := get_exec_cases hg'
      · rw [hg] at hold
        cases hold
      · exact absurd hc (h task')

variable {P : Except Error α → World → Prop} {Q : Except Error β → World → Prop}

theorem holds_bind {p : Handler α} {f : α → Handler β}
    (hp : Prog.Issues (L := Statements) Stmt.Quiet p) (h : Holds S call p P (fun _ => False) w)
    (hok : ∀ b w', P (.ok b) w' → Holds S call (f b) Q mine w')
    (herr : ∀ e w', P (.error e) w' → Q (.error e) w') : Holds S call (p.bind f) Q mine w :=
  Fulfils.bind (K := (contract call).until Q) (fun _ _ _ _ hc => stored_none hc.stores_none) hp h hok
    herr

/-- What comes after statements that the contract says nothing about. -/
theorem holds_after {p : Handler α} {f : α → Handler β}
    (hp : Prog.Issues (L := Statements) Stmt.Apart p)
    (hok : ∀ b w', Later w w' → Holds S call (f b) Q mine w')
    (herr : ∀ e w', Later w w' → Q (.error e) w') : Holds S call (p.bind f) Q mine w := by
  have hany : Holds S call p (fun r w' => Later w w' ∧ ∀ b, r = .ok b → True) (fun _ => False) w :=
    Fulfils.of_yields (later S) (fun _ _ => trivial)
      (fun _ _ _ _ hc => stored_none hc.stores_none) (fun _ _ hc => promised_none hc.controls_none)
      (fun _ _ _ _ => trivial) hp (yields_any : p.Yields (fun _ _ => True) fun _ => True)
  exact Fulfils.bind (K := (contract call).until Q) (fun _ _ _ _ hc => stored_none hc.stores_none) hp
    hany (fun b w' h => hok b w' h.1) fun e w' h => herr e w' h.1

/-- One statement that stores no task. -/
theorem holds_issue {c : Stmt} {f : c.Ans → Handler β} (hc : ∀ row, c ≠ .task (.create row))
    (h : ∀ i w', Later w w' → Proper call c w' → (∀ x ∈ c.controls, OfAgent x.2 x.1 w') ∧
      (Later w' (exec S i c w').2 →
        Holds S call (f (exec S i c w').1) Q mine (exec S i c w').2)) :
    Holds S call (Prog.bind (Prog.issue (L := Statements) c) f) Q mine w := by
  intro w' hw' i hproper
  obtain ⟨hpromised, hrest⟩ := h i w' hw' hproper
  refine ⟨hpromised, (hrest later_exec).fewer fun x hx => hx.resolve_right ?_⟩
  rw [show dueTo.born w' (exec S i c w').2 x = false from stored_none hc]
  exact Bool.false_ne_true

theorem holds_ask {q : Query} {f : q.Ans → Handler β}
    (h : ∀ i w', Later w w' → Proper call (.read q) w' →
      Holds S call (f (q.eval S i w'.db)) Q mine w') :
    Holds S call ((ask q).bind f) Q mine w :=
  holds_issue (fun _ h => by cases h) fun i w' hw' hproper =>
    ⟨promised_none rfl, fun _ => h i w' hw' hproper⟩

theorem holds_found {model : String} {x : Option α} {f : α → Handler β}
    (hok : ∀ b, x = some b → Holds S call (f b) Q mine w)
    (herr : x = none → Q (.error (.doesNotExist model)) w) :
    Holds S call ((orDoesNotExist model x).bind f) Q mine w := by
  cases x with
  | none => exact herr rfl
  | some b => exact hok b rfl

/-- A call that neither assigns nor controls. -/
theorem holds_apart {p : Handler Unit} (hp : Prog.Issues (L := Statements) Stmt.Apart p)
    (hcall : control? call = none) :
    Fulfils (exec S) dueTo (contract call) p (fun _ => False) w := by
  have hany : Holds S call p (fun r w' => Later w w' ∧ ∀ b, r = .ok b → True) (fun _ => False) w :=
    Fulfils.of_yields (later S) (fun _ _ => trivial)
      (fun _ _ _ _ hc => stored_none hc.stores_none) (fun _ _ hc => promised_none hc.controls_none)
      (fun _ _ _ _ => trivial) hp (yields_any : p.Yields (fun _ _ => True) fun _ => True)
  refine hany.mono fun _ _ _ _ op id h => ?_
  rw [hcall] at h
  cases h

/-! ## Assigns -/

/-- The row is stored, and due. -/
theorem holds_storeTask {row : Task} {f : TaskId → Handler β}
    (hok : ∀ id w', Later w w' → w'.db.tasks.get id = some row →
      Holds S call (f id) Q (fun x => mine x ∨ x = id) w')
    (herr : ∀ e w', Later w w' → Q (.error e) w') :
    Holds S call ((Backend.storeTask row).bind f) Q mine w := by
  unfold Backend.storeTask
  split
  · exact herr _ _ ((later S).refl w)
  intro w₁ hw₁ i _
  have hw₂ : Later w (exec S i (.task (.create row)) w₁).2 := (later S).trans hw₁ later_exec
  refine And.intro (promised_none rfl) ?_
  revert hw₂
  simp only [exec, TaskStmt.exec]
  split
  · intro hw₂
    refine (hok w₁.db.tasks.next (w₁.withTask row) hw₂ Table.get_insert_next).fewer fun x hx => ?_
    refine hx.imp_right fun hnew => ?_
    simp only [dueTo, stored, Bool.and_eq_true, Option.isNone_iff_eq_none] at hnew
    obtain ⟨task, hg⟩ := Option.isSome_iff_exists.mp hnew.2
    obtain ⟨hnext, _⟩ | ⟨_, hold⟩ := Table.get_insert_cases hg
    · exact hnext
    · rw [hnew.1] at hold
      cases hold
  · exact fun hw₂ => herr _ _ hw₂

/-- The Assign of a stored task goes to its agent. -/
theorem holds_broadcast {m : Assign} {f : Unit → Handler β} (hcall : isAssign call = true)
    (htask : OfAgent m.task a w)
    (hok : ∀ w', Later w w' → AssignedTo m.task a w' → Holds S call (f ()) Q mine w') :
    Holds S call ((broadcast a (.assign m)).bind f) Q mine w := by
  refine holds_ask fun i w₁ hw₁ hproper => ?_
  have hworks : works w₁.db a = true := by
    obtain ⟨task, hg, ha⟩ := htask.later hw₁
    rw [works, Bool.not_eq_true', List.isEmpty_eq_false_iff_exists_mem]
    exact ⟨_, Table.mem_select.mpr ⟨hg, decide_eq_true ha⟩⟩
  have haddress : addressable a w₁ = true := by
    have hreachable := hproper.2 hcall
    simpa [reachable, hworks] using hreachable
  -- what both ways of handing the message out come to
  have hsent : ∀ c : DeliverStmt, c = .push a (.assign m) ∨ c = .post a (.assign m) →
      Holds S call (Prog.bind (Prog.issue (L := Statements) (.deliver c)) f) Q mine w₁ := by
    intro c hc
    refine holds_issue (fun _ h => by cases h) fun j w₂ hw₂ _ => ⟨promised_none ?_, fun hw₃ => ?_⟩
    · obtain rfl | rfl := hc <;> rfl
    · refine hok _ ((later S).trans ((later S).trans hw₁ hw₂) hw₃) ?_
      obtain rfl | rfl := hc
      · exact ⟨(a, .assign m), by simp [exec, DeliverStmt.exec], rfl, rfl⟩
      · exact ⟨(a, .assign m), by simp [exec, DeliverStmt.exec], rfl, rfl⟩
  unfold addressable at haddress
  show Holds S call (((orDoesNotExist "Agent" (w₁.db.agents.get a)).bind _).bind f) Q mine w₁
  cases hg : w₁.db.agents.get a with
  | none =>
    rw [hg] at haddress
    cases haddress
  | some row =>
    rw [hg, Option.any_some] at haddress
    dsimp only [orDoesNotExist, ret_bind]
    cases hk : row.kind with
    | websocket => exact hsent _ (.inl rfl)
    | webhook =>
      have hurl : row.hookUrl.any (· != "") = true := by simpa [hk] using haddress
      dsimp only
      rw [if_pos hurl]
      exact hsent _ (.inr rfl)

/-- What is left of an assign once its tasks are stored. -/
theorem holds_dispatch {ctx : CallerContext} {m : Option Token → Assign} {p : Handler Unit}
    {result : α} (hcall : isAssign call = true) (hm : ∀ token, (m token).task = id)
    (hp : Prog.Issues (L := Statements) Stmt.Apart p) (htask : OfAgent id a w)
    (hmine : ∀ w', Later w w' → AssignedTo id a w' → ∀ x, mine x → dueTo.kept x w') :
    Holds S call ((Backend.mintToken id ctx).bind fun token => (broadcast a (.assign (m token))).bind
      fun _ => p.bind fun _ => .ret result) (fun _ _ => True) mine w := by
  have hmint : Prog.Issues (L := Statements) Stmt.Apart (Backend.mintToken id ctx) := by
    refine Issues.compositional.bind (.issue rfl) fun token => ?_
    split <;> trivial
  refine holds_after hmint (fun token w₁ hw₁ => ?_) fun _ _ _ => trivial
  have htask₁ : OfAgent (m token).task a w₁ := by
    rw [hm token]
    exact htask.later hw₁
  refine holds_broadcast hcall htask₁ fun w₂ hw₂ hassigned => ?_
  rw [hm token] at hassigned
  refine holds_after hp (fun _ w₃ hw₃ => ?_) fun _ _ _ => trivial
  exact ⟨trivial, hmine w₃ ((later S).trans ((later S).trans hw₁ hw₂) hw₃) (hassigned.later hw₃)⟩

theorem resolves_apart : Backend.Resolves fun _ p => Prog.Issues (L := Statements) Stmt.Apart p where
  toCompositional := Issues.compositional
  look _ _ := .issue rfl

theorem assignHigherOrder_holds {ctx : CallerContext} {organization : Organization}
    {input : Backend.AssignInput} {higherId : ImplementationId} {higher : Implementation}
    {lowerId : ImplementationId} {caller : CallerId} (hcall : isAssign call = true)
    (hhigher : w.db.implementations.get higherId = some higher)
    (hho : higher.higherOrderFor = some lowerId) :
    Holds S call (Backend.assignHigherOrder S ctx organization input higherId higher lowerId caller)
      (fun _ _ => True) (fun _ => False) w := by
  refine holds_ask fun i w₁ hw₁ _ => holds_found (fun lower _ => holds_found (fun lowerAction _ =>
    holds_ask fun j w₂ hw₂ _ => holds_found (fun available _ => ?_) fun _ => trivial)
      fun _ => trivial) fun _ => trivial
  dsimp only
  split
  · trivial
  refine holds_after resolves_apart.buildDependencyDict (fun higherDependencies w₃ hw₃ =>
    holds_after resolves_apart.liftProjection (fun lowerArgs w₄ hw₄ =>
    holds_after resolves_apart.liftProjection (fun lowerDependencies w₅ hw₅ =>
    holds_after resolves_apart.referenceFor (fun reference w₆ hw₆ =>
    holds_storeTask (fun wrapper w₇ hw₇ hwrapper => holds_ask fun k w₈ hw₈ _ =>
    holds_storeTask (fun child w₉ hw₉ hchild => ?_) fun _ _ _ => trivial) fun _ _ _ => trivial)
      fun _ _ _ => trivial) fun _ _ _ => trivial) fun _ _ _ => trivial) fun _ _ _ => trivial
  have hlater : Later w w₇ := (later S).trans hw₁ <| (later S).trans hw₂ <| (later S).trans hw₃ <|
    (later S).trans hw₄ <| (later S).trans hw₅ <| (later S).trans hw₆ hw₇
  have hkept : dueTo.kept wrapper w₇ := by
    refine ⟨_, hwrapper, .inl ⟨⟨higherId, higher, rfl, ?_, by rw [hho]; rfl⟩, rfl⟩⟩
    rw [hlater.evolves.implementations, hhigher]
  refine holds_dispatch (p := .ret ()) hcall (fun _ => rfl) trivial ⟨_, hchild, rfl⟩ ?_
  intro w' hw' hassigned x hx
  obtain (hx | rfl) | rfl := hx
  · exact hx.elim
  · exact kept_later hkept ((later S).trans ((later S).trans hw₈ hw₉) hw')
  · obtain ⟨task, hg, he⟩ := hw'.evolves.tasks hchild
    exact ⟨task, hg, .inr (he.agent_eq ▸ hassigned)⟩

/-- The implementation is still the stored one. -/
theorem holds_resolve {organization : Organization} {input : Backend.AssignInput}
    {f : Backend.Resolved → Handler β} (hok : ∀ target w', Later w w' →
      w'.db.implementations.get target.id = some target.implementation →
      Holds S call (f target) Q mine w') (herr : ∀ e w', Later w w' → Q (.error e) w') :
    Holds S call ((Backend.resolve organization input).bind f) Q mine w := by
  have hresolved : Holds S call (Backend.resolve organization input) (fun r w' => Later w w' ∧
      ∀ target, r = .ok target → Backend.Stored w.db.implementations target) (fun _ => False) w :=
    Fulfils.of_yields (later S) (fun _ _ => trivial) (fun _ _ _ _ hc => stored_none hc.stores_none)
      (fun _ _ hc => promised_none hc.controls_none)
      (fun i c w' hw' => ⟨i, w', hw'.evolves.implementations, rfl⟩) resolves_apart.resolve
      Backend.yields_resolve
  refine Fulfils.bind (K := (contract call).until Q) (fun _ _ _ _ hc => stored_none hc.stores_none)
    resolves_apart.resolve hresolved (fun target w' h => hok target w' h.1 ?_)
    fun e w' h => herr e w' h.1
  rw [h.1.evolves.implementations]
  exact h.2 target rfl

theorem assign_holds {ctx : CallerContext} {input : Backend.AssignInput}
    (hcall : isAssign call = true) :
    Holds S call (Backend.assign S ctx input) (fun _ _ => True) (fun _ => False) w := by
  unfold Backend.assign
  split
  · trivial
  rename_i organization _
  have hcaller : Prog.Issues (L := Statements) Stmt.Apart
      (Backend.getCallerForContext ctx organization) := by
    unfold Backend.getCallerForContext
    split
    · exact .issue rfl
    · trivial
  refine holds_after hcaller (fun caller w₁ _ => holds_resolve (fun target w₂ _ hstored => ?_)
    fun _ _ _ => trivial) fun _ _ _ => trivial
  split
  · rename_i hho
    exact assignHigherOrder_holds hcall hstored hho
  refine holds_ask fun i w₃ _ _ => holds_found (fun _ _ => holds_found (fun action _ => ?_)
    fun _ => trivial) fun _ => trivial
  refine holds_after resolves_apart.referenceFor (fun reference w₄ _ => ?_) fun _ _ _ => trivial
  have hdispatch : ∀ dependencies w₅, Holds S call ((Backend.storeTask
      (Backend.plainTask S input target caller reference dependencies)).bind
        fun task => (Backend.mintToken task ctx).bind fun token =>
        (broadcast target.implementation.agent (.assign {
          task := task
          args := input.args
          user := ctx.user.sub
          org := organization.slug
          reference := some reference
          capture := input.capture.getD false
          resolution := none
          interface := target.implementation.interface
          action := action.hash
          implementation := target.id
          token := token })).bind fun _ =>
        (Prog.forEach (fun hook => if hook.kind = .init then .fail .validationError else .ret ())
          input.hooks).bind fun _ => .ret task) (fun _ _ => True) (fun _ => False) w₅ := by
    intro dependencies w₅
    refine holds_storeTask (fun task w₆ _ hrow => ?_) fun _ _ _ => trivial
    refine holds_dispatch hcall (fun _ => rfl) ?_ ⟨_, hrow, rfl⟩ ?_
    · refine Issues.compositional.forEach fun hook _ => ?_
      split <;> trivial
    · intro w' hw' hassigned x hx
      obtain rfl := hx.resolve_left id
      obtain ⟨row, hg, he⟩ := hw'.evolves.tasks hrow
      exact ⟨row, hg, .inr (he.agent_eq ▸ hassigned)⟩
  cases target.dependencyDict with
  | some dependencies => exact hdispatch dependencies w₄
  | none =>
    exact holds_after resolves_apart.buildDependencyDict (fun dependencies w₅ _ =>
      hdispatch dependencies w₅) fun _ _ _ => trivial

/-- What an assign returns is of no interest. -/
theorem holds_discard {p : Handler α} (h : Holds S call p (fun _ _ => True) (fun _ => False) w)
    (hcall : control? call = none) :
    Fulfils (exec S) dueTo (contract call) (discard p) (fun _ => False) w := by
  refine Fulfils.map h (fun _ _ _ _ op id hc => ?_) fun _ _ _ h => by cases h
  rw [hcall] at hc
  cases hc

theorem callerAssignSync_holds {agent : AgentId} {reference : String} {input : Backend.AssignInput}
    (hcall : isAssign call = true) :
    Holds S call (Backend.callerAssignSync S agent reference input) (fun _ _ => True)
      (fun _ => False) w := by
  refine holds_ask fun i w₁ _ _ => holds_found (fun row _ => ?_) fun _ => trivial
  have hcaller : Prog.Issues (L := Statements) Stmt.Apart (Prog.issue (L := Statements) (ε := Error)
      (.getOrCreateCaller ⟨row.client, row.user, row.organization⟩)) := .issue rfl
  refine holds_after hcaller (fun caller w₂ _ => holds_ask fun j w₃ _ _ => ?_) fun _ _ _ => trivial
  cases (Query.taskByReference caller reference).eval S j w₃.db with
  | some existing => exact ⟨trivial, fun _ => False.elim⟩
  | none =>
    dsimp only
    split
    · trivial
    refine holds_ask fun k w₄ _ _ => ?_
    exact Fulfils.map (assign_holds hcall) (fun _ _ _ => trivial) fun _ _ _ => trivial

/-! ## Control requests -/

theorem runs_later (h : w.db.Runs t) (hw : Later w w') : w'.db.Runs t :=
  Virtual.runs_evolves h hw.evolves

theorem settled_of_runs (h : w.db.Runs t) : Settled t w := by
  intro task hg hvirtual
  obtain ⟨task', hg', hreal⟩ := h
  cases hg.symm.trans hg'
  exact absurd hvirtual hreal

theorem runs_of_real (h : real w.db t = true) : w.db.Runs t := by
  unfold real at h
  cases hg : w.db.tasks.get t with
  | none =>
    rw [hg] at h
    cases h
  | some task =>
    rw [hg, Option.any_some, Bool.not_eq_true'] at h
    exact Virtual.runs_of_get hg h

/-- A target that is told is no virtual wrapper, and it is its agent that is told. -/
theorem holds_controlTarget {op : ControlOp} {target : TaskId × Task} {f : Unit → Handler β}
    (htask : OfAgent target.1 target.2.agent w)
    (hok : ∀ w', Later w w' → w'.db.Runs target.1 → Holds S call (f ()) Q mine w')
    (herr : ∀ e w', e ≠ .doesNotExist "Task" → Q (.error e) w') :
    Holds S call ((Backend.controlTarget op target).bind f) Q mine w := by
  refine holds_issue (fun _ h => by cases h) fun i w₁ hw₁ hproper =>
    ⟨promised_none rfl, fun hw₂ => ?_⟩
  have hruns := runs_later (runs_of_real (hproper.1 target.1 rfl)) hw₂
  generalize (exec S i _ w₁).2 = w₂ at hw₂ hruns ⊢
  refine holds_issue (fun _ h => by cases h) fun j w₃ hw₃ _ => ⟨promised_none rfl, fun hw₄ => ?_⟩
  have hlater := (later S).trans ((later S).trans ((later S).trans hw₁ hw₂) hw₃) hw₄
  have hruns₄ := runs_later (runs_later hruns hw₃) hw₄
  generalize exec S j _ w₃ = answer at hlater hruns₄ ⊢
  obtain ⟨created, w₄⟩ := answer
  cases created with
  | false => exact herr _ _ fun h => by cases h
  | true =>
  refine holds_ask fun k w₅ hw₅ _ => ?_
  have hsent : ∀ c : DeliverStmt, c = .push target.2.agent (op.toAgent target.1) ∨
      c = .post target.2.agent (op.toAgent target.1) →
      Holds S call (Prog.bind (Prog.issue (L := Statements) (.deliver c)) f) Q mine w₅ := by
    intro c hc
    refine holds_issue (fun _ h => by cases h) fun l w₆ hw₆ _ => ⟨fun x hx => ?_, fun hw₇ => ?_⟩
    · have hx' : x = (target.2.agent, target.1) := by
        obtain rfl | rfl := hc <;> cases op <;> exact (Option.some.inj hx).symm
      rw [hx']
      exact htask.later ((later S).trans ((later S).trans hlater hw₅) hw₆)
    · exact hok _ ((later S).trans ((later S).trans ((later S).trans hlater hw₅) hw₆) hw₇)
        (runs_later (runs_later (runs_later hruns₄ hw₅) hw₆) hw₇)
  show Holds S call (((orDoesNotExist "Agent" (w₅.db.agents.get target.2.agent)).bind _).bind f) Q
    mine w₅
  cases w₅.db.agents.get target.2.agent with
  | none => exact herr _ _ (by decide)
  | some row =>
    dsimp only [orDoesNotExist, ret_bind]
    cases row.kind with
    | websocket => exact hsent _ (.inl rfl)
    | webhook =>
      dsimp only
      split
      · exact hsent _ (.inr rfl)
      · exact hok _ ((later S).trans hlater hw₅) (runs_later hruns₄ hw₅)

theorem holds_controlTargets {op : ControlOp} {targets : List (TaskId × Task)}
    {f : Unit → Handler β} (htasks : ∀ x ∈ targets, OfAgent x.1 x.2.agent w)
    (hok : ∀ w', Later w w' → (∀ x ∈ targets, w'.db.Runs x.1) → Holds S call (f ()) Q mine w')
    (herr : ∀ e w', e ≠ .doesNotExist "Task" → Q (.error e) w') :
    Holds S call ((Prog.forEach (Backend.controlTarget op) targets).bind f) Q mine w := by
  induction targets generalizing w with
  | nil => exact hok w ((later S).refl w) fun _ h => by cases h
  | cons x targets ih =>
    rw [Prog.forEach, bind_assoc]
    refine holds_controlTarget (htasks x List.mem_cons_self) (fun w₁ hw₁ hruns => ?_) herr
    refine ih (fun y hy => (htasks y (List.mem_cons_of_mem _ hy)).later hw₁) fun w₂ hw₂ hall => ?_
    refine hok w₂ ((later S).trans hw₁ hw₂) fun y hy => ?_
    obtain rfl | hy := List.mem_cons.mp hy
    · exact runs_later hruns hw₂
    · exact hall y hy

/-- A control request that returns has told its target, and where it does not find it there is none. -/
def Ended (id : TaskId) (r : Except Error TaskId) (w : World) : Prop :=
  (∀ x, r = .ok x → w.db.Runs id) ∧
    ∀ e, r = .error e → e = .doesNotExist "Task" → w.db.tasks.get id = none

theorem ended_error {e : Error} (h : e ≠ .doesNotExist "Task") : Ended id (.error e) w :=
  ⟨fun _ h => (by cases h), fun _ he htask => absurd ((Except.error.inj he).trans htask) h⟩

theorem requestControl_holds {op : ControlOp} :
    Holds S call (Backend.requestControl op id) (Ended id) (fun _ => False) w := by
  refine holds_ask fun i w₁ _ _ => holds_found (fun task hg => ?_) fun hnone =>
    ⟨fun _ h => (by cases h), fun _ _ _ => hnone⟩
  dsimp only
  split
  · exact ended_error (fun h => by cases h)
  have htell : ∀ targets : List (TaskId × Task), ∀ w', (∀ x ∈ targets, OfAgent x.1 x.2.agent w') →
      OfAgent id task.agent w' → Holds S call ((Prog.forEach (Backend.controlTarget op)
        ((id, task) :: targets)).bind fun _ => .ret id) (Ended id) (fun _ => False) w' := by
    intro targets w' htargets htask
    refine holds_controlTargets (fun x hx => ?_) (fun w₂ hw₂ hruns => ?_) fun e w₂ he => ended_error he
    · obtain rfl | hx := List.mem_cons.mp hx
      · exact htask
      · exact htargets x hx
    · refine ⟨⟨fun _ _ => hruns (id, task) List.mem_cons_self, fun _ h => by cases h⟩, ?_⟩
      exact fun _ => False.elim
  split
  · refine holds_ask fun j w₂ hw₂ _ => htell _ w₂ (fun x hx => ?_) (OfAgent.later ⟨task, hg, rfl⟩ hw₂)
    exact ⟨x.2, (Table.mem_selectBy.mp hx).1, rfl⟩
  · exact htell [] w₁ (fun _ h => by cases h) ⟨task, hg, rfl⟩

/-- A control request of an agent that returns has told its target. -/
theorem callerControlSync_holds {agent : AgentId} {op : ControlOp} :
    Holds S call (Backend.callerControlSync agent op id)
      (fun r w' => ∀ x, r = .ok x → w'.db.Runs id) (fun _ => False) w := by
  have herr : ∀ (e : Error) (w : World), ∀ x : TaskId, Except.error e = .ok x → w.db.Runs id :=
    fun _ _ _ h => by cases h
  refine holds_ask fun i w₁ _ _ => holds_found (fun row _ => ?_) fun _ => herr _ _
  have hcaller : Prog.Issues (L := Statements) Stmt.Apart (Prog.issue (L := Statements) (ε := Error)
      (.getOrCreateCaller ⟨row.client, row.user, row.organization⟩)) := .issue rfl
  refine holds_after hcaller (fun caller w₂ _ => holds_ask fun j w₃ _ _ => holds_found
    (fun task _ => ?_) fun _ => herr _ _) fun _ _ _ => herr _ _
  split
  · exact herr _ _
  · exact Fulfils.mono (K := (contract call).until fun r w' => ∀ x, r = .ok x → w'.db.Runs id)
      requestControl_holds fun r w' h => h.1

theorem postman_fulfils {c : PostmanCall} :
    Fulfils (exec S) dueTo (contract (.postman c)) (c.code S) (fun _ => False) w := by
  -- the target of a call that is a control request is the one it was asked for
  have hcontrol : ∀ {op id}, control? (.postman c) = some (op, id) → ∀ {w : World}, w.db.Runs id →
      (contract (.postman c)).post (.ok ()) w := by
    intro op id hc w hruns _ op' id' hc'
    cases hc.symm.trans hc'
    exact settled_of_runs hruns
  have hraised : ∀ (e : Error) (w : World), (contract (.postman c)).post (.error e) w :=
    fun _ _ h => by cases h
  cases c with
  | assign ctx input => exact holds_discard (assign_holds rfl) rfl
  | callerAssign agent reference input => exact holds_discard (callerAssignSync_holds rfl) rfl
  | control op id =>
    exact Fulfils.map requestControl_holds (fun x w' h => hcontrol rfl (h.1 x rfl))
      fun e w' _ => hraised e w'
  | callerControl agent op id =>
    exact Fulfils.map callerControlSync_holds (fun x w' h => hcontrol rfl (h x rfl))
      fun e w' _ => hraised e w'
  | callerCancel server agent id autoInterrupt =>
    refine Fulfils.map (P := fun r w' => ∀ x, r = .ok x → w'.db.Runs id) ?_
      (fun x w' h => hcontrol rfl (h x rfl)) fun e w' _ => hraised e w'
    refine holds_bind Backend.callerControlSync_issues callerControlSync_holds
      (fun task w' h => ?_) fun e w' _ _ h => by cases h
    have hruns := h task rfl
    cases autoInterrupt with
    | none => exact ⟨fun _ _ => hruns, fun _ => False.elim⟩
    | some window =>
      refine holds_issue (fun _ h => by cases h) fun i w₂ hw₂ _ => ⟨promised_none rfl, fun hw₃ => ?_⟩
      exact ⟨fun _ _ => runs_later (runs_later hruns hw₂) hw₃, fun _ => False.elim⟩
  | escalate id =>
    have hdone : ∀ {w : World}, Settled id w →
        (contract (.postman (.escalate id))).post (.ok ()) w := by
      rintro w hsettled _ op id' ⟨⟩
      exact hsettled
    refine holds_ask (Q := (contract (.postman (.escalate id))).post) fun i w₁ _ _ => ?_
    dsimp only [Query.eval]
    cases hg : w₁.db.tasks.get id with
    | none =>
      refine ⟨hdone fun task hg' => ?_, fun _ => False.elim⟩
      rw [hg] at hg'
      cases hg'
    | some task =>
      dsimp only
      split
      · rename_i hd
        refine ⟨hdone fun task' hg' _ => ?_, fun _ => False.elim⟩
        cases hg.symm.trans hg'
        exact hd
      refine Fulfils.bind (K := contract (.postman (.escalate id)))
        (fun _ _ _ _ hc => stored_none hc.stores_none) Backend.requestControl_issues.attempt
        (Fulfils.attempt (fun _ _ _ _ hc => stored_none hc.stores_none)
          Backend.requestControl_issues requestControl_holds) (fun answer w₂ h => ?_)
        fun e w₂ _ => hraised e w₂
      obtain ⟨answer', heq, hended⟩ := h
      cases heq
      split
      · exact ⟨hcontrol rfl (hended.1 _ rfl), fun _ => False.elim⟩
      · refine ⟨hdone fun task' hg' => ?_, fun _ => False.elim⟩
        rw [hended.2 _ rfl rfl] at hg'
        cases hg'
      · exact hraised _ _

/-! ## Runs -/

/-- Every call keeps its contract. -/
theorem call_fulfils (c : Call) :
    Fulfils (exec S) dueTo (contract c) (c.code S) (fun _ => False) w := by
  cases c with
  | connection c => exact holds_apart (TaskCall.connection c).apart rfl
  | agent c => exact holds_apart c.apart rfl
  | report c => exact holds_apart (TaskCall.report c).apart rfl
  | postman c => exact postman_fulfils

/-- Every task is one that some call has stored. -/
def Attributed (r : Log) : Prop :=
  ∀ t, (r.sys.shared.db.tasks.get t).isSome = true → ∃ p, r.origin t = some p

theorem attributed_step {r : Log} {e : Nat × Input} (h : Attributed r) :
    Attributed (r.step (exec S) stored e) := by
  intro t hthere
  show ∃ p, (if stored r.sys.shared (r.sys.step (exec S) e).shared t = true then some e.1
    else r.origin t) = some p
  split
  · exact ⟨e.1, rfl⟩
  · rename_i hold
    cases hg : r.sys.shared.db.tasks.get t with
    | some task => exact h t (by rw [hg]; rfl)
    | none =>
      refine absurd ?_ hold
      rw [stored, hg]
      exact hthere

/-- The log is in order: each call keeps its contract, and every task is attributed. -/
def Orderly (S : Settings) (calls : Nat → Call) (r : Log) : Prop :=
  Fulfilling (exec S) dueTo (fun p => contract (calls p)) r ∧ Attributed r

/-- What a step that heeds the condition does. -/
theorem orderly_step {calls : Nat → Call} {r : Log} {e : Nat × Input} (h : Orderly S calls r)
    (hheeds : Heeds calls r e) : Orderly S calls (r.step (exec S) stored e) ∧
      Informed r.sys e ∧ ChildTold S calls r.sys e := by
  obtain ⟨hfulfilling, hattributed⟩ := h
  obtain ⟨hnext, hkept⟩ := hfulfilling.step (later S) (fun w t => by simp [dueTo, stored])
    (fun t w w' hw hk => kept_later hk hw) (fun _ _ => trivial) fun st hst => (hheeds st hst).1
  refine ⟨⟨hnext, attributed_step hattributed⟩, fun st hst x hx => ?_, fun hgoing hret op id hc => ?_⟩
  · -- the task is the agent's, no virtual wrapper, and was stored by a call that has returned
    obtain ⟨task, hg, hagent⟩ := (hkept st hst).1 x hx
    obtain ⟨hproper, hreturned⟩ := hheeds st hst
    have htells : x.2 ∈ tells st := by
      cases st with
      | task c => cases hx
      | deliver c =>
        show (Stmt.controls _).map (·.2) = some x.2
        rw [hx]
        rfl
      | _ => cases hx
    obtain ⟨p, hp⟩ := hattributed x.2 (by rw [hg]; rfl)
    obtain ⟨a, ha⟩ := Option.isSome_iff_exists.mp (hreturned x.2 htells p hp)
    obtain ⟨task', hg', hdue⟩ := hfulfilling.ended p a (value?_eq_some.mp ha) x.2 hp
    cases hg.symm.trans hg'
    rw [← hagent]
    refine hdue.resolve_left fun hvirtual => ?_
    obtain ⟨task', hg', hreal⟩ := runs_of_real (hproper.1 x.2 htells)
    cases hg.symm.trans hg'
    exact hreal hvirtual
  · obtain ⟨st, hst⟩ := Option.isSome_iff_exists.mp hgoing
    intro wrapper hg hvirtual hopen
    have hdone := (hkept st hst).2 () hret rfl op id hc wrapper hg hvirtual
    rw [hopen] at hdone
    cases hdone

/-- **Control requests reach the executing agent**, along every run of the calls from a world without
tasks whose control requests are about tasks that are no virtual wrappers and whose assign has
returned. -/
theorem control_reaches_executor (S : Settings) (calls : Nat → Call) (w : World)
    (hw : ∀ t, w.db.tasks.get t = none) (sched : List (Nat × Input))
    (hs : Along (Traced.step (exec S) stored) (Heeds calls) ⟨⟨w, fun p => (calls p).code S⟩, fun _ =>
      none⟩ sched) :
    Along (Sys.step (exec S)) (fun c e => Informed c e ∧ ChildTold S calls c e)
      ⟨w, fun p => (calls p).code S⟩ sched := by
  have hrun : ∀ (r : Log) sched, Orderly S calls r →
      Along (Traced.step (exec S) stored) (Heeds calls) r sched →
      Along (Sys.step (exec S)) (fun c e => Informed c e ∧ ChildTold S calls c e) r.sys sched := by
    intro r sched hr hs
    induction sched generalizing r with
    | nil => trivial
    | cons e sched ih =>
      obtain ⟨hnext, hstep⟩ := orderly_step hr hs.1
      exact ⟨hstep, ih (r.step (exec S) stored e) hnext hs.2⟩
  refine hrun _ sched ⟨⟨fun p c k hp => ?_, fun p a _ x hx => by cases hx⟩, fun t ht => ?_⟩ hs
  · have hcall : Fulfils (exec S) dueTo (contract (calls p)) ((calls p).code S) (fun _ => False) w :=
      call_fulfils (calls p)
    rw [show (calls p).code S = .stmt c k from hp] at hcall
    exact hcall.fewer fun x hx => by cases hx
  · rw [hw] at ht
    cases ht

section Cancelled


open Reference (stretches)

/-- An assign to the implementation, and then a cancel of the task that it makes. -/
def cancelled (implementation : ImplementationId) : Nat → Call
  | 0 => .postman (.assign requester { implementation := some implementation })
  | _ => .postman (.control .cancel 1)

def cancelling (implementation : ImplementationId) : Conf :=
  ⟨Virtual.wrapperWorld false, fun p => (cancelled implementation p).code {}⟩

theorem control_reaches_plain :
    Along (Sys.step (exec {})) (fun c e => Informed c e ∧ ChildTold {} (cancelled 1) c e)
      (cancelling 1) (stretches [(0, 20), (1, 10)]) :=
  control_reaches_executor {} (cancelled 1) (Virtual.wrapperWorld false) (fun _ => rfl)
    (stretches [(0, 20), (1, 10)]) (by decide +kernel)

/-- The cancel of the wrapper has returned. -/
def wrapperCancelled : Conf := (cancelling 2).run (exec {}) (stretches [(0, 12), (1, 5)])

/-- The wrapper task 1 was never handed out. Its agent is told to cancel it, and nobody is told to
cancel its open child. -/
theorem wrapper_cancelled :
    ¬ Along (Sys.step (exec {})) Informed (cancelling 2) (stretches [(0, 12), (1, 5)]) ∧
    ¬ Along (Sys.step (exec {})) (ChildTold {} (cancelled 2)) (cancelling 2)
      (stretches [(0, 12), (1, 5)]) := by
  refine ⟨by decide +kernel, fun h => ?_⟩
  have hlast : Along (Sys.step (exec {})) (ChildTold {} (cancelled 2)) ((cancelling 2).run (exec {})
      (stretches [(0, 12), (1, 4)])) [(1, {})] :=
    (along_append.mp (show Along _ _ _ (stretches [(0, 12), (1, 4)] ++ [(1, {})]) from h)).2
  have hret : (wrapperCancelled.procs 1).value? = some () := by decide +kernel
  have htold : Told .cancel 1 wrapperCancelled.shared :=
    hlast.1 (by decide +kernel) (value?_eq_some.mp hret) .cancel 1 rfl
  have hrows : ∃ wrapper ∈ wrapperCancelled.shared.db.tasks.get 1,
      ∃ child ∈ wrapperCancelled.shared.db.tasks.get 2,
        isVirtual wrapperCancelled.shared.db wrapper = true ∧ wrapper.isDone = false ∧
          child.root = some 1 ∧ child.isDone = false := by decide +kernel
  obtain ⟨wrapper, hg, child, hg', hvirtual, hopen, hroot, hd⟩ := hrows
  have hmail := htold wrapper hg (isVirtual_iff.mp hvirtual) hopen 2 child hg' hroot hd
  have hnone : ∀ m ∈ wrapperCancelled.shared.pushed ++ wrapperCancelled.shared.posted,
      m.2.controlled? ≠ some 2 := by decide +kernel
  exact hnone _ hmail rfl

end Cancelled

end Executor
end Rekuest
