import Rekuest.Tasks.Reclaim.Registering
import Rekuest.Tasks.Sweep

/-!
# Rekuest.Tasks.Reclaim

Work that is in flight under one session of an agent, and the Init of another session, in every
interleaving of the calls of the server.

* `ReclaimsOwn`: in flight under one session, the task is settled before another session is sent
  an Init, and the first such Init does not list it.
* `Tracked`: where the task is still open, the active session is the one it was in flight under, or
  one that was sent an Init since, or one whose process is about to settle the task.
* `reclaims_own`: every run of careful steps reclaims only its own. `crash_hands_over`: a crash
  between the claim and the cascade hands the work to the other session.
-/

namespace Rekuest
namespace Reclaim

open Interleave Interleave.Prog

/-! ## What is observed -/

/-- The process registers a connection of the agent, with this session. -/
def registers (a : AgentId) (calls : Nat → Call) (session : SessionId) (p : Nat) : Prop :=
  match calls p with
  | .connection (.register _ b _ session' _) => b = a ∧ session' = some session
  | _ => False

/-- Since the earlier world an Init of the agent with these inquiries was sent. -/
def Listed (a : AgentId) (w w' : World) (inquiries : List TaskId) : Prop :=
  ∃ connection, (connection, ToAgentMessage.init a inquiries) ∈ w'.sent.drop w.sent.length

section

variable (S : Settings) (a : AgentId) (calls : Nat → Call)

/-- At some point of the run the task is settled. -/
def SettledAlong (t : TaskId) (s : State) (moves : List Move) : Prop :=
  ∃ pre, pre <+: moves ∧ Settled t (s.runMoves S a pre).world

/-- At some point of the run an Init is sent to a connection of the session. -/
def GreetedAs (session : SessionId) (s : State) (moves : List Move) : Prop :=
  ∃ pre p i, pre ++ [.run p i] <+: moves ∧ registers a calls session p ∧
    ∃ inquiries, Listed a (s.runMoves S a pre).world (s.runMoves S a (pre ++ [.run p i])).world
      inquiries

/-- The claim on a run: when another session is sent an Init, the task that was in flight has been
settled, and the Init lists it only if the agent has run under that session since. -/
def ReclaimsOwn (w : World) (moves : List Move) : Prop :=
  ∀ before mid p i rest, moves = before ++ mid ++ .run p i :: rest →
    ∀ session session' t task inquiries,
      activeSession a ((State.begin S calls w).runMoves S a before).world = some session →
      InHand a ((State.begin S calls w).runMoves S a before).world.db t task →
      registers a calls session' p → session' ≠ session →
      Listed a ((State.begin S calls w).runMoves S a (before ++ mid)).world
        ((State.begin S calls w).runMoves S a (before ++ mid ++ [.run p i])).world inquiries →
      SettledAlong S a t ((State.begin S calls w).runMoves S a before) mid ∧
        (t ∈ inquiries → GreetedAs S a calls session'
          ((State.begin S calls w).runMoves S a before) mid)

end

variable {S : Settings} {a : AgentId} {calls : Nat → Call} {t : TaskId} {session : SessionId}
  {s base : State} {moves : List Move} {m : Move} {p q : Nat} {i : Input} {c : Stmt}
  {w w' : World}

theorem runMoves_snoc : base.runMoves S a (moves ++ [m]) = (base.runMoves S a moves).next S a m := by
  simp [State.runMoves]

theorem SettledAlong.snoc (h : SettledAlong S a t base moves) :
    SettledAlong S a t base (moves ++ [m]) := by
  obtain ⟨pre, hpre, hsettled⟩ := h
  exact ⟨pre, hpre.trans (List.prefix_append _ _), hsettled⟩

theorem settledAlong_end (h : Settled t (base.runMoves S a moves).world) :
    SettledAlong S a t base moves :=
  ⟨moves, List.prefix_rfl, h⟩

theorem GreetedAs.snoc (h : GreetedAs S a calls session base moves) :
    GreetedAs S a calls session base (moves ++ [m]) := by
  obtain ⟨pre, p, i, hpre, hgreeted⟩ := h
  exact ⟨pre, p, i, hpre.trans (List.prefix_append _ _), hgreeted⟩

theorem listed_greet {connection : ConnectionId} {inquiries : List TaskId} :
    Listed a w (exec S i (.deliver (.send connection (.init a inquiries))) w).2 inquiries := by
  refine ⟨connection, ?_⟩
  show _ ∈ (w.sent ++ [(connection, ToAgentMessage.init a inquiries)]).drop w.sent.length
  rw [List.drop_left]
  exact List.mem_singleton.mpr rfl

/-- Only a statement that sends it sends an Init. -/
theorem eq_of_listed {inquiries : List TaskId} (h : Listed a w (exec S i c w).2 inquiries) :
    ∃ connection, c = .deliver (.send connection (.init a inquiries)) := by
  obtain ⟨connection, hmem⟩ := h
  have hunsent : (exec S i c w).2.sent = w.sent → False := by
    intro hsent
    rw [hsent, List.drop_length] at hmem
    cases hmem
  cases c with
  | deliver c =>
    cases c with
    | send connection' m =>
      have hmem : (connection, ToAgentMessage.init a inquiries) ∈
          (w.sent ++ [(connection', m)]).drop w.sent.length := hmem
      rw [List.drop_left] at hmem
      cases List.mem_singleton.mp hmem
      exact ⟨connection, rfl⟩
    | _ => exact (hunsent rfl).elim
  | timer c => cases c <;> exact (hunsent rfl).elim
  | getOrCreateCaller identity =>
    refine (hunsent ?_).elim
    simp only [exec]
    split <;> rfl
  | _ => exact (hunsent rfl).elim

/-! ## The task -/

/-- The process of that session has taken the lease over, and `X` to do before its Init. -/
structure TakingOver (S : Settings) (a : AgentId) (calls : Nat → Call) (session : SessionId)
    (s : State) (X : Handler Unit) (p : Nat) : Prop where
  registers : registers a calls session p
  holder : s.holder = some (p, true)
  takes : ∃ connection, Takes S a connection s.world (s.procs p) X

/-- Where the task is open, the session is the one it was in flight under, or was sent an Init since,
after the task was settled; or its process settles the task before it sends one. -/
inductive Since (S : Settings) (a : AgentId) (calls : Nat → Call) (t : TaskId) (session : SessionId)
    (base : State) (moves : List Move) (session' : SessionId) : Prop
  | same (h : session' = session)
  | greeted (hsettled : SettledAlong S a t base moves)
      (hgreeted : GreetedAs S a calls session' base moves)
  | taking {p : Nat} {X : Handler Unit}
      (h : TakingOver S a calls session' (base.runMoves S a moves) X p)
      (hsettles : SettledAlong S a t base moves ∨
        Settles S a t X (base.runMoves S a moves).world)

structure Tracked (S : Settings) (a : AgentId) (calls : Nat → Call) (t : TaskId)
    (session : SessionId) (base : State) (moves : List Move) : Prop where
  orderly : Orderly S a calls (base.runMoves S a moves)
  stored : Stored a t (base.runMoves S a moves).world
  active : ∀ task, (base.runMoves S a moves).world.db.tasks.get t = some task →
    task.isDone = false → ∃ session', ActiveIs a (base.runMoves S a moves).world (some session') ∧
      Since S a calls t session base moves session'
  listed : ∀ p connection inquiries, ((base.runMoves S a moves).procs p).next? =
      some (.deliver (.send connection (.init a inquiries))) → t ∈ inquiries →
    ∃ session', registers a calls session' p ∧
      (session' = session ∨ GreetedAs S a calls session' base moves)

/-- What a process that sends an Init next has come to. -/
theorem Shape.of_init {connection : ConnectionId} {inquiries : List TaskId}
    (h : Shape S a calls s p)
    (hnext : (s.procs p).next? = some (.deliver (.send connection (.init a inquiries)))) :
    (∃ server connection session force,
      calls p = .connection (.register server a connection session force) ∧
        ActiveIs a s.world session) ∧
      (s.holder = some (p, false) ∨ inquiries = [] ∧ s.holder = some (p, true) ∧
        ∀ connection X, Takes S a connection s.world (s.procs p) X → ∃ x, X = .ret x) := by
  cases h with
  | elsewhere h => exact absurd rfl (h.next hnext)
  | before hcall h =>
    generalize s.procs p = rest at h hnext
    cases h with
    | fresh =>
      rw [onRegister_eq] at hnext
      cases hnext
    | named identity => cases hnext
    | claims => cases hnext
  | reclaims hcall hholder hactive h => exact ⟨⟨_, _, _, _, hcall, hactive⟩, .inl hholder⟩
  | takes hcall hholder hactive h =>
    exact ⟨⟨_, _, _, _, hcall, hactive⟩, .inr ⟨(h.of_init hnext).1, hholder, fun _ _ h' =>
      (h'.of_init hnext).2⟩⟩

theorem registers_of_call {server : ServerId} {connection : ConnectionId} {force : Bool}
    (h : calls p = .connection (.register server a connection (some session) force)) :
    registers a calls session p := by
  unfold registers
  rw [h]
  exact ⟨rfl, rfl⟩

theorem call_of_registers (h : registers a calls session p) : ∃ server connection force,
    calls p = .connection (.register server a connection (some session) force) := by
  unfold registers at h
  split at h
  · rename_i server b connection session' force hcall
    obtain ⟨rfl, rfl⟩ := h
    exact ⟨server, connection, force, hcall⟩
  · exact h.elim

theorem Tracked.start {task : Task} (h : Orderly S a calls base)
    (hs : activeSession a base.world = some session) (ht : InHand a base.world.db t task) :
    Tracked S a calls t session base [] where
  orderly := h
  stored := ⟨task, ht.stored, ht.agent⟩
  active _ _ _ := ⟨session, activeIs_some.mpr hs, .same rfl⟩
  listed p connection inquiries hnext hmem := by
    obtain ⟨⟨server, connection', session', force, hcall, hactive⟩, _⟩ := (h p).of_init hnext
    obtain rfl := hactive.unique (activeIs_some.mpr hs)
    exact ⟨session, registers_of_call hcall, .inl rfl⟩

theorem busy_of_open {task : Task} (hg : w.db.tasks.get t = some task) (ha : task.agent = a)
    (hd : task.isDone = false) : busy a w = true := by
  have hmem : (t, task) ∈ w.db.tasks.select fun _ task => task.agent = a && !task.isDone :=
    Table.mem_select.mpr ⟨hg, by simp [ha, hd]⟩
  unfold busy
  generalize w.db.tasks.select (fun _ task => task.agent = a && !task.isDone) = rows at hmem ⊢
  cases rows with
  | nil => cases hmem
  | cons row rows => rfl

/-- The task was open before, and is the one it was. -/
theorem open_before {task : Task} (ht : Stored a t w)
    (hg : (exec S i c w).2.db.tasks.get t = some task) (hd : task.isDone = false) :
    ∃ task₀, w.db.tasks.get t = some task₀ ∧ task₀.agent = a ∧ task₀.isDone = false := by
  obtain ⟨task₀, hg₀, ha₀⟩ := ht
  obtain ⟨task', hg', he⟩ := (exec_evolves (S := S) (i := i) (c := c) (w := w)).tasks hg₀
  cases hg'.symm.trans hg
  refine ⟨task₀, hg₀, ha₀, ?_⟩
  cases hd₀ : task₀.isDone with
  | false => rfl
  | true =>
    rw [he.done hd₀] at hd
    cases hd

/-- What was so of the session still is, where its process does not move. -/
theorem Since.keep {session' : SessionId}
    (h : Since S a calls t session base moves session')
    (hlater : Later a (base.runMoves S a moves).world (base.runMoves S a (moves ++ [m])).world)
    (hsame : ∀ p X, TakingOver S a calls session' (base.runMoves S a moves) X p →
      (base.runMoves S a (moves ++ [m])).procs p = (base.runMoves S a moves).procs p ∧
        (base.runMoves S a (moves ++ [m])).holder = (base.runMoves S a moves).holder) :
    Since S a calls t session base (moves ++ [m]) session' := by
  cases h with
  | same h => exact .same h
  | greeted hsettled hgreeted => exact .greeted hsettled.snoc hgreeted.snoc
  | taking h hsettles =>
    obtain ⟨hprocs, hholder⟩ := hsame _ _ h
    obtain ⟨connection, htakes⟩ := h.takes
    refine .taking ⟨h.registers, hholder.trans h.holder, connection, ?_⟩
      (hsettles.imp SettledAlong.snoc fun hp => hp.later later_rely hlater)
    exact ⟨hprocs ▸ htakes.rest, htakes.elsewhere, htakes.runs.later later_rely hlater⟩

/-- The process that takes over goes on: it settles the task, and sends its Init in the end. -/
theorem Since.taking_step {session' : SessionId} {X : Handler Unit}
    (h : TakingOver S a calls session' (base.runMoves S a moves) X p)
    (hsettles : SettledAlong S a t base moves ∨ Settles S a t X (base.runMoves S a moves).world) :
    Since S a calls t session base (moves ++ [.run p i]) session' := by
  obtain ⟨connection, htakes⟩ := h.takes
  rcases htakes.next with ⟨x, rfl, hgreet⟩ | ⟨d, l, rfl, helsewhere, hd, hnext⟩
  · have hsettled := hsettles.resolve_right id
    refine .greeted hsettled.snoc ⟨moves, p, i, List.prefix_rfl, h.registers, [], ?_⟩
    rw [runMoves_snoc, next_world hgreet]
    exact listed_greet
  · have haccepts : accepts S a i (base.runMoves S a moves).world d = false :=
      accepts_elsewhere helsewhere
    have hself := next_self (S := S) (a := a) (i := i) hd
    have hworld := next_world (S := S) (a := a) (i := i) hd
    have hholder := next_holder (S := S) (a := a) (i := i) hd haccepts
    refine .taking (p := p) (X := l (exec S i d (base.runMoves S a moves).world).1)
      ⟨h.registers, ?_, connection, ?_⟩ ?_
    · rw [runMoves_snoc, hholder]
      exact h.holder
    · rw [runMoves_snoc, hself, hworld]
      exact hnext i
    · rcases hsettles with hsettled | hsettles
      · exact .inl hsettled.snoc
      · rcases hsettles _ (later_rely (S := S).refl _) i with hsettled | hsettles
        · refine .inl (settledAlong_end ?_)
          rw [runMoves_snoc, hworld]
          exact hsettled
        · refine .inr ?_
          rw [runMoves_snoc, hworld]
          exact hsettles

/-- Nobody takes over where a claim is accepted. -/
theorem CarefulStmt.nobody {k : Statements.Ans c → Handler Unit} {session' : SessionId}
    {X : Handler Unit} (hc : CarefulStmt S a s p i c) (hp : s.procs p = .stmt c k)
    (haccepts : accepts S a i s.world c = true) : ¬ TakingOver S a calls session' s X q := by
  intro h
  obtain ⟨connection, htakes⟩ := h.takes
  by_cases hq : q = p
  · subst hq
    rcases htakes.next with ⟨x, _, hgreet⟩ | ⟨d, l, _, helsewhere, hd, _⟩
    · cases hp.symm.trans hgreet
      cases haccepts
    · cases hp.symm.trans hd
      rw [accepts_elsewhere helsewhere] at haccepts
      cases haccepts
  · have hend := hc.alone haccepts (q, true) h.holder hq
    rw [htakes.unfinished] at hend
    cases hend

/-- An accepted claim is the one of a registration. -/
theorem Shape.of_accepted {k : Statements.Ans c → Handler Unit} (h : Shape S a calls s p)
    (hp : s.procs p = .stmt c k) (haccepts : accepts S a i s.world c = true) :
    ∃ server connection session force,
      calls p = .connection (.register server a connection session force) ∧
        c = .lease (.claim a (some connection) session force) ∧
        s.procs p = claiming server a connection session force := by
  cases h with
  | elsewhere h' =>
    rw [hp] at h'
    rw [accepts_elsewhere h'.1] at haccepts
    cases haccepts
  | reclaims hcall hholder hactive h' =>
    generalize hrest : s.procs p = rest at h'
    cases h' <;> cases hp.symm.trans hrest <;> cases haccepts
  | takes hcall hholder hactive h' =>
    rcases h'.next with ⟨x, _, hgreet⟩ | ⟨d, l, _, helsewhere, hd, _⟩
    · cases hp.symm.trans hgreet
      cases haccepts
    · cases hp.symm.trans hd
      rw [accepts_elsewhere helsewhere] at haccepts
      cases haccepts
  | before hcall h' =>
    generalize hrest : s.procs p = rest at h'
    cases h' with
    | fresh =>
      cases hp.symm.trans (hrest.trans onRegister_eq)
      cases haccepts
    | named identity =>
      cases hp.symm.trans hrest
      cases haccepts
    | claims =>
      refine ⟨_, _, _, _, hcall, ?_, rfl⟩
      cases hp.symm.trans hrest
      rfl

/-- The lease of a busy agent is claimed. -/
theorem Tracked.claimed (h : Tracked S a calls t session base moves)
    {k : Statements.Ans c → Handler Unit} (hp : (base.runMoves S a moves).procs p = .stmt c k)
    (hc : CarefulStmt S a (base.runMoves S a moves) p i c)
    (haccepts : accepts S a i (base.runMoves S a moves).world c = true) {task : Task}
    (hg : (base.runMoves S a moves).world.db.tasks.get t = some task) (ha : task.agent = a)
    (hd : task.isDone = false) :
    ∃ session', ActiveIs a (base.runMoves S a (moves ++ [.run p i])).world (some session') ∧
      Since S a calls t session base (moves ++ [.run p i]) session' := by
  obtain ⟨s', hactive, hsince⟩ := h.active task hg hd
  have hbusy : busy a (base.runMoves S a moves).world = true := busy_of_open hg ha hd
  have hstored : Stored a t (base.runMoves S a moves).world := ⟨task, hg, ha⟩
  obtain ⟨server, connection, claimed, force, hcall, rfl, hclaiming⟩ :=
    (h.orderly p).of_accepted hp haccepts
  have hremembers := hc.remembers hbusy
  obtain ⟨answer, hanswer, hclaimed, hfresh, hnow⟩ := exec_accepted haccepts
  have hself := next_self (S := S) (a := a) (i := i) hclaiming
  have hworld := next_world (S := S) (a := a) (i := i) hclaiming
  have hholder := next_claimed (S := S) (a := a) (i := i) hclaiming haccepts
  rw [hanswer] at hself
  dsimp only [orDoesNotExist, ret_bind] at hself
  rw [if_pos hclaimed] at hself
  rw [← hworld] at hnow
  obtain ⟨row, hrow, hprior⟩ := hactive
  have hsession : ∀ f, claims S a f i (base.runMoves S a moves).world
      (.lease (.claim a (some connection) claimed force)) = f (some s') claimed := by
    intro f
    have haccepted := ((claims_iff hrow).mp haccepts).2
    rw [Bool.eq_iff_iff, claims_iff hrow, hprior]
    exact and_iff_left haccepted
  rw [hsession] at hremembers hfresh hholder
  obtain ⟨s'', rfl⟩ : ∃ s'', claimed = some s'' := by
    cases claimed with
    | none => cases hremembers
    | some s'' => exact ⟨s'', rfl⟩
  refine ⟨s'', by rw [runMoves_snoc]; exact hnow, ?_⟩
  cases hf : PersistBackend.isFreshSession (some s') (some s'') with
  | true =>
    rw [hfresh, hf, if_pos rfl] at hself
    rw [hf] at hholder
    have hthere := there_of_activeIs hnow
    refine .taking (p := p) (X := takeOver server a) ⟨registers_of_call hcall, ?_, connection, ?_⟩
      (.inr ?_)
    · rw [runMoves_snoc]
      exact hholder
    · rw [runMoves_snoc, hself]
      exact takes_takeOver hthere
    · rw [runMoves_snoc]
      refine settles_takeOver hthere ?_
      rw [hworld]
      exact hstored.later later_exec
  | false =>
    obtain rfl := not_fresh hf
    cases hsince with
    | same heq => exact .same heq
    | greeted hsettled hgreeted => exact .greeted hsettled.snoc hgreeted.snoc
    | taking htaking _ => exact absurd htaking (hc.nobody hp haccepts)

/-- A process issues a statement. -/
theorem Tracked.stmt_active (h : Tracked S a calls t session base moves)
    {k : Statements.Ans c → Handler Unit} (hp : (base.runMoves S a moves).procs p = .stmt c k)
    (hc : CarefulStmt S a (base.runMoves S a moves) p i c) {task : Task}
    (hg : (base.runMoves S a (moves ++ [.run p i])).world.db.tasks.get t = some task)
    (hd : task.isDone = false) :
    ∃ session', ActiveIs a (base.runMoves S a (moves ++ [.run p i])).world (some session') ∧
      Since S a calls t session base (moves ++ [.run p i]) session' := by
  have hworld := next_world (S := S) (a := a) (i := i) hp
  have hlater : Later a (base.runMoves S a moves).world
      (base.runMoves S a (moves ++ [.run p i])).world := by
    rw [runMoves_snoc, hworld]
    exact later_exec
  rw [runMoves_snoc, hworld] at hg
  obtain ⟨task₀, hg₀, ha₀, hd₀⟩ := open_before h.stored hg hd
  cases haccepts : accepts S a i (base.runMoves S a moves).world c with
  | true => exact h.claimed hp hc haccepts hg₀ ha₀ hd₀
  | false =>
    obtain ⟨s', hactive, hsince⟩ := h.active task₀ hg₀ hd₀
    refine ⟨s', ?_, ?_⟩
    · rw [runMoves_snoc, hworld]
      exact hactive.exec hc.keeps haccepts
    by_cases htaking : ∃ X, TakingOver S a calls s' (base.runMoves S a moves) X p
    · cases hsince with
      | same heq => exact .same heq
      | greeted hsettled hgreeted => exact .greeted hsettled.snoc hgreeted.snoc
      | taking htaking' hsettles =>
        obtain ⟨X, htaking⟩ := htaking
        cases Option.some.inj (htaking.holder.symm.trans htaking'.holder)
        exact .taking_step htaking' hsettles
    · refine hsince.keep hlater fun q X hq => ?_
      have hne : q ≠ p := by
        rintro rfl
        exact htaking ⟨X, hq⟩
      rw [runMoves_snoc]
      exact ⟨next_other hp hne, next_holder hp haccepts⟩

/-- A process that has not claimed the lease sends no Init with its next two statements. -/
theorem Before.not_init {server : ServerId} {connection connection' : ConnectionId}
    {session : Option SessionId} {force : Bool} {b : AgentId} {inquiries : List TaskId}
    (h : Before server a connection session force (s.procs p)) :
    ((s.next S a (.run p i)).procs p).next? ≠
      some (.deliver (.send connection' (.init b inquiries))) := by
  generalize hrest : s.procs p = rest at h
  cases h with
  | fresh =>
    rw [next_self (hrest.trans onRegister_eq)]
    cases (exec S i (.read (.agent a)) s.world).1 with
    | none => exact nofun
    | some row =>
      dsimp only [orDoesNotExist, ret_bind]
      split <;> exact nofun
  | named identity =>
    rw [next_self hrest]
    exact nofun
  | claims =>
    rw [next_self hrest]
    cases (exec S i (.lease (.claim a (some connection) session force)) s.world).1 with
    | none => exact nofun
    | some answer =>
      dsimp only [orDoesNotExist, ret_bind]
      split
      · split <;> exact nofun
      · exact nofun

/-- A process that reclaims reads what it is to list while its session is active. -/
theorem Tracked.reads (h : Tracked S a calls t session base moves) {connection : ConnectionId}
    {inquiries : List TaskId}
    (hnext : ((base.runMoves S a (moves ++ [.run p i])).procs p).next? =
      some (.deliver (.send connection (.init a inquiries)))) (ht : t ∈ inquiries) :
    ∃ session', registers a calls session' p ∧
      (session' = session ∨ GreetedAs S a calls session' base moves) := by
  rw [runMoves_snoc] at hnext
  cases h.orderly p with
  | elsewhere h' =>
    cases hp : (base.runMoves S a moves).procs p with
    | stmt c k =>
      rw [hp] at h'
      rw [next_self hp] at hnext
      exact absurd rfl ((h'.2 _).next hnext)
    | _ =>
      rw [next_ended (by rw [hp]; rfl), hp] at hnext
      cases hnext
  | before hcall h' => exact absurd hnext h'.not_init
  | reclaims hcall hholder hactive h' =>
    generalize hrest : (base.runMoves S a moves).procs p = rest at h'
    cases h' with
    | cancels =>
      have hp : (base.runMoves S a moves).procs p = .stmt (.timer (.cancel _ .executorGrace a))
          fun _ => (ask (.inFlight a)).bind fun rows => greet a _ (rows.map (·.id)) := hrest
      rw [next_self hp] at hnext
      cases hnext
    | reads =>
      have hp : (base.runMoves S a moves).procs p = .stmt (.read (.inFlight a)) fun rows =>
          greet a _ (rows.map (·.id)) := hrest
      rw [next_self hp] at hnext
      cases hnext
      obtain ⟨row, hrow, rfl⟩ := List.mem_map.mp ht
      obtain ⟨hg, ha, hd, _⟩ := mem_inFlight.mp hrow
      obtain ⟨s', hactive', hsince⟩ := h.active row.task hg hd
      obtain rfl := hactive.unique hactive'
      refine ⟨s', registers_of_call hcall, ?_⟩
      cases hsince with
      | same heq => exact .inl heq
      | greeted _ hgreeted => exact .inr hgreeted
      | taking htaking _ => cases hholder.symm.trans htaking.holder
    | greets inquiries' =>
      rw [next_self hrest] at hnext
      cases hnext
  | takes hcall hholder hactive h' =>
    rcases h'.next with ⟨x, _, hgreet⟩ | ⟨d, l, _, _, hd, htakes⟩
    · rw [next_self hgreet] at hnext
      cases hnext
    · rw [next_self hd] at hnext
      obtain ⟨rfl, _⟩ := (htakes i).of_init hnext
      cases ht

theorem Tracked.run_stmt (h : Tracked S a calls t session base moves)
    {k : Statements.Ans c → Handler Unit} (hp : (base.runMoves S a moves).procs p = .stmt c k)
    (hc : CarefulStmt S a (base.runMoves S a moves) p i c)
    (horderly : Orderly S a calls (base.runMoves S a (moves ++ [.run p i]))) :
    Tracked S a calls t session base (moves ++ [.run p i]) where
  orderly := horderly
  stored := by
    rw [runMoves_snoc, next_world hp]
    exact h.stored.later later_exec
  active _ hg hd := h.stmt_active hp hc hg hd
  listed q connection inquiries hnext ht := by
    by_cases hq : q = p
    · subst hq
      obtain ⟨s', hreg, hs'⟩ := h.reads hnext ht
      exact ⟨s', hreg, hs'.imp_right GreetedAs.snoc⟩
    · rw [runMoves_snoc, next_other hp hq] at hnext
      obtain ⟨s', hreg, hs'⟩ := h.listed q connection inquiries hnext ht
      exact ⟨s', hreg, hs'.imp_right GreetedAs.snoc⟩

/-- A process dies that is not about to settle the task. -/
theorem Tracked.crash (h : Tracked S a calls t session base moves)
    (hc : Careful S a (base.runMoves S a moves) (.crash p))
    (horderly : Orderly S a calls (base.runMoves S a (moves ++ [.crash p]))) :
    Tracked S a calls t session base (moves ++ [.crash p]) where
  orderly := horderly
  stored := by
    rw [runMoves_snoc]
    exact h.stored
  active task hg hd := by
    rw [runMoves_snoc] at hg
    obtain ⟨s', hactive, hsince⟩ := h.active task hg hd
    refine ⟨s', by rw [runMoves_snoc]; exact hactive, hsince.keep ?_ fun q X hq => ?_⟩
    · rw [runMoves_snoc]
      exact later_rely (S := S).refl _
    · have hne : q ≠ p := by
        rintro rfl
        obtain ⟨task₀, hg₀, ha₀⟩ := h.stored
        cases hg₀.symm.trans hg
        obtain ⟨connection, htakes⟩ := hq.takes
        have hend := hc (busy_of_open hg ha₀ hd) hq.holder
        rw [htakes.unfinished] at hend
        cases hend
      rw [runMoves_snoc]
      exact ⟨crash_other hne, rfl⟩
  listed q connection inquiries hnext ht := by
    rw [runMoves_snoc] at hnext
    by_cases hq : q = p
    · subst hq
      rw [crash_self] at hnext
      cases hnext
    · rw [crash_other hq] at hnext
      obtain ⟨s', hreg, hs'⟩ := h.listed q connection inquiries hnext ht
      exact ⟨s', hreg, hs'.imp_right GreetedAs.snoc⟩

/-- A move that does nothing. -/
theorem Tracked.idle (h : Tracked S a calls t session base moves)
    (hsame : base.runMoves S a (moves ++ [m]) = base.runMoves S a moves) :
    Tracked S a calls t session base (moves ++ [m]) where
  orderly := hsame ▸ h.orderly
  stored := hsame ▸ h.stored
  active task hg hd := by
    rw [hsame] at hg
    obtain ⟨s', hactive, hsince⟩ := h.active task hg hd
    refine ⟨s', hsame ▸ hactive, hsince.keep ?_ fun _ _ _ => ?_⟩
    · rw [hsame]
      exact later_rely (S := S).refl _
    · rw [hsame]
      exact ⟨rfl, rfl⟩
  listed q connection inquiries hnext ht := by
    rw [hsame] at hnext
    obtain ⟨s', hreg, hs'⟩ := h.listed q connection inquiries hnext ht
    exact ⟨s', hreg, hs'.imp_right GreetedAs.snoc⟩

theorem Tracked.step (h : Tracked S a calls t session base moves)
    (hc : Careful S a (base.runMoves S a moves) m) :
    Tracked S a calls t session base (moves ++ [m]) := by
  have horderly : Orderly S a calls (base.runMoves S a (moves ++ [m])) := by
    rw [runMoves_snoc]
    exact h.orderly.step hc
  cases m with
  | crash p => exact h.crash hc horderly
  | run p i =>
    cases hp : (base.runMoves S a moves).procs p with
    | stmt c k => exact h.run_stmt hp (hc c (by rw [hp]; rfl)) horderly
    | _ => exact h.idle (runMoves_snoc.trans (next_ended (by rw [hp]; rfl)))

theorem Tracked.along {rest : List Move} (h : Tracked S a calls t session base moves)
    (hc : Along (State.next S a) (Careful S a) (base.runMoves S a moves) rest) :
    Tracked S a calls t session base (moves ++ rest) := by
  induction rest generalizing moves with
  | nil => rwa [List.append_nil]
  | cons m rest ih =>
    have hnext := ih (h.step hc.1) (by rw [runMoves_snoc]; exact hc.2)
    rwa [List.append_assoc] at hnext

theorem Orderly.along (h : Orderly S a calls s) {moves : List Move}
    (hc : Along (State.next S a) (Careful S a) s moves) : Orderly S a calls (s.runMoves S a moves) :=
  hc.inv (fun _ _ h hc => h.step hc) h

/-- The statement that sends another session an Init. -/
theorem Tracked.init {session' : SessionId} {inquiries : List TaskId}
    (h : Tracked S a calls t session base moves) (hreg : registers a calls session' p)
    (hne : session' ≠ session)
    (hlisted : Listed a (base.runMoves S a moves).world
      (base.runMoves S a (moves ++ [.run p i])).world inquiries) :
    SettledAlong S a t base moves ∧
      (t ∈ inquiries → GreetedAs S a calls session' base moves) := by
  rw [runMoves_snoc] at hlisted
  cases hp : (base.runMoves S a moves).procs p with
  | stmt c k =>
    rw [next_world hp] at hlisted
    obtain ⟨connection, rfl⟩ := eq_of_listed hlisted
    have hnext : ((base.runMoves S a moves).procs p).next? =
        some (.deliver (.send connection (.init a inquiries))) := by rw [hp]; rfl
    obtain ⟨server, connection', force, hcall⟩ := call_of_registers hreg
    have hsame : ∀ s', registers a calls s' p → s' = session' := by
      intro s' hs'
      obtain ⟨_, _, _, hcall'⟩ := call_of_registers hs'
      cases hcall.symm.trans hcall'
      rfl
    refine ⟨?_, fun ht => ?_⟩
    · obtain ⟨task, hg, ha⟩ := h.stored
      cases hd : task.isDone with
      | true => exact settledAlong_end ⟨task, hg, .inl hd⟩
      | false =>
        obtain ⟨s', hactive, hsince⟩ := h.active task hg hd
        obtain ⟨⟨_, _, _, _, hcall', hactive'⟩, hends⟩ := (h.orderly p).of_init hnext
        cases hcall.symm.trans hcall'
        obtain rfl := Option.some.inj (hactive.unique hactive')
        cases hsince with
        | same heq => exact absurd heq hne
        | greeted hsettled _ => exact hsettled
        | taking htaking hsettles =>
          -- its own cascade has come to its end
          obtain ⟨connection, htakes⟩ := htaking.takes
          rcases hends with hholder | ⟨_, hholder, hends⟩
          · cases hholder.symm.trans htaking.holder
          · cases hholder.symm.trans htaking.holder
            obtain ⟨x, rfl⟩ := hends _ _ htakes
            exact hsettles.resolve_right id
    · obtain ⟨s', hs', hgreeted⟩ := h.listed p connection inquiries hnext ht
      obtain rfl := hsame s' hs'
      exact hgreeted.resolve_left hne
  | _ =>
    rw [next_ended (by rw [hp]; rfl)] at hlisted
    obtain ⟨connection, hmem⟩ := hlisted
    rw [List.drop_length] at hmem
    cases hmem

/-- **Reclaim is only for the same session**, in every run of careful steps. -/
theorem reclaims_own (S : Settings) (a : AgentId) (calls : Nat → Call) (w : World)
    (moves : List Move)
    (hc : Along (State.next S a) (Careful S a) (State.begin S calls w) moves) :
    ReclaimsOwn S a calls w moves := by
  rintro before mid p i rest rfl session session' t task inquiries hs ht hreg hne hlisted
  obtain ⟨hpre, _⟩ := along_append.mp hc
  obtain ⟨hbefore, hmid⟩ := along_append.mp hpre
  have hmerge : ∀ more, (State.begin S calls w).runMoves S a (before ++ more) =
      ((State.begin S calls w).runMoves S a before).runMoves S a more := fun _ =>
    List.foldl_append
  rw [List.append_assoc, hmerge, hmerge] at hlisted
  have htracked : Tracked S a calls t session
      ((State.begin S calls w).runMoves S a before) mid :=
    Tracked.along (.start (orderly_begin.along hbefore) hs ht) hmid
  exact htracked.init hreg hne hlisted

section Handover

/-- Task 1 is in flight for agent 1, whose lost connection had session 1. -/
def lostWorld : World :=
  let base := runningWorld .none
  let agent := { Sweep.strandedAgent with activeSessionId := some 1 }
  { base with db := { base.db with agents := Table.empty.insert agent } }

/-- The agent connects, for each of the sessions in a process of its own. -/
def connects (sessions : List (Option SessionId)) (p : Nat) : Call :=
  .connection (.register 0 1 p (sessions[p]?.join) true)

def steps (p n : Nat) : List Move := List.replicate n (.run p {})

/-- Session 1 reconnects; session 2 takes over, and a report comes in between its claim and its Init;
then session 2 reconnects. -/
theorem reclaims_own_takeover : ReclaimsOwn {} 1
    (fun p => if p = 3 then .report (.report 0 { id := 1, task := 1, kind := .paused })
      else connects [some 1, some 2, some 2] p) lostWorld
    (steps 0 6 ++ steps 1 5 ++ steps 3 2 ++ steps 1 2 ++ steps 3 2 ++ steps 1 2 ++ steps 2 6) :=
  reclaims_own {} 1 _ lostWorld _ (by decide +kernel)

/-- The move sends nothing over a socket, or is one of process 0, which has another session. -/
def quiet (other : Bool) (s : State) (m : Move) : Bool :=
  match m with
  | .run p _ => (other && p == 0) || (s.next {} 1 m).world.sent.length == s.world.sent.length
  | .crash _ => true

theorem not_greeted {other : Bool} (hother : other = true → ¬ registers 1 calls 2 0)
    (h : Along (State.next {} 1) (fun s m => quiet other s m = true) base moves) :
    ¬ GreetedAs {} 1 calls 2 base moves := by
  rintro ⟨pre, p, i, hpre, hreg, inquiries, connection, hmem⟩
  obtain ⟨_, hquiet, _⟩ := along_append.mp (h.of_prefix hpre)
  rcases (Bool.or_eq_true _ _).mp hquiet with hzero | hsent
  · obtain ⟨ho, hp⟩ := (Bool.and_eq_true _ _).mp hzero
    rw [eq_of_beq hp] at hreg
    exact hother ho hreg
  · rw [runMoves_snoc, List.drop_eq_nil_of_le (eq_of_beq hsent).le] at hmem
    cases hmem

/-- Session 2 is told of task 1 in the first Init that it is sent. -/
theorem hands_over (other : Bool) (hother : other = true → ¬ registers 1 calls 2 0)
    (hquiet : Along (State.next {} 1) (fun s m => quiet other s m = true)
      (State.begin {} calls lostWorld) moves) (hreg : registers 1 calls 2 1)
    (hlisted : Listed 1 ((State.begin {} calls lostWorld).runMoves {} 1 moves).world
      ((State.begin {} calls lostWorld).runMoves {} 1 (moves ++ [.run 1 {}])).world [1]) :
    ¬ ReclaimsOwn {} 1 calls lostWorld (moves ++ [.run 1 {}]) := by
  intro h
  obtain ⟨_, hgreeted⟩ := h [] moves 1 {} [] rfl 1 2 1 _ [1] rfl ⟨rfl, rfl, rfl⟩ hreg (by decide)
    hlisted
  exact not_greeted hother hquiet (hgreeted (by decide))

/-- The process that claims the lease for session 2 dies before the cascade, and session 2 connects
again. -/
theorem crash_hands_over :
    ¬ ReclaimsOwn {} 1 (connects [some 2, some 2]) lostWorld
      (steps 0 3 ++ [.crash 0] ++ steps 1 5 ++ [.run 1 {}]) :=
  hands_over false nofun (by decide +kernel) ⟨rfl, rfl⟩
    ⟨1, List.mem_of_getElem? (i := 0) rfl⟩

/-- A connection without a session comes in between. -/
example : ¬ ReclaimsOwn {} 1 (connects [none, some 2]) lostWorld
    (steps 0 6 ++ steps 1 5 ++ [.run 1 {}]) :=
  hands_over true (fun _ h => by cases h.2) (by decide +kernel) ⟨rfl, rfl⟩
    ⟨1, List.mem_of_getElem? (i := 0) rfl⟩

/-- Session 2 connects again where its first process stands before the cascade. -/
example : ¬ ReclaimsOwn {} 1 (connects [some 2, some 2]) lostWorld
    (steps 0 3 ++ steps 1 5 ++ [.run 1 {}]) :=
  hands_over false nofun (by decide +kernel) ⟨rfl, rfl⟩
    ⟨1, List.mem_of_getElem? (i := 0) rfl⟩

end Handover

end Reclaim
end Rekuest
