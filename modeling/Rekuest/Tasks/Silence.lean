import Rekuest.Tasks.Silence.Calm

/-!
# Rekuest.Tasks.Silence

The progress lease is honoured where Progress comes alone.

* `Inv.fresh`, `Inv.look`, `Inv.rearm`: the statements of a Progress. `Inv.step`: an event of a run.
* `silence_honoured`: in every run in which no timer overtakes a Progress, and Progress and Paused come
  alone, an action that writes on the task finds it silent.
  `stale_lease_acts`: a timer armed for an earlier Progress acts on a later one.
-/

namespace Rekuest
namespace Silence

open Interleave Interleave.Prog

variable {S : Settings} {t : TaskId} {server : ServerId} {i : Input} {c : Stmt}
variable {s s' : State} {th : Thread} {n : Nat} {rest : Handler Unit}

/-! ## Progress -/

theorem run_of_stmt {k : Statements.Ans c → Handler Unit} (hn : s.threads[n]? = some th)
    (hrest : th.rest = .stmt c k) :
    s.run S t n i = s.issue S t n i c (k (exec S i c s.world).1) := by
  unfold State.run
  rw [hn]
  dsimp only
  rw [hrest]

/-- A thread that is not at its end is not over. -/
theorem Sound.of_progress (hover : th.ended = true → th.rest.next? = none)
    (hact : th.act.isProgress = true) (hreports : Reports S t th.act.server th.recorded th.rest) :
    Sound S t s th where
  ended := hover
  progress _ := hreports
  action ha := by
    cases hth : th.act with
    | progress server percent message => rw [hth] at ha; cases ha
    | _ => rw [hth] at hact; cases hact
  mild hm := by
    rw [hact] at hm
    cases hm

/-- Progress is recorded: the process has the only timer, and is about to arm it anew. -/
theorem Inv.record (h : Inv S t s) (hn : s.threads[n]? = some th)
    (hact : th.act.isProgress = true) (hover : th.ended = false)
    (hunarmed : Unarmed .progressLeases c) (hcreate : ∀ row, c ≠ .task (.create row))
    (hresets : resets t c = none) (hkind : recordedKind t s.world c = some .progress)
    (hlone : LoneProgress S t s th.act.server) :
    Inv S t (s.issue S t n i c (PersistBackend.armProgressLease S th.act.server t)) := by
  generalize hs' : s.issue S t n i c (PersistBackend.armProgressLease S th.act.server t) = s'
  have hth : th ∈ s.threads := List.mem_of_getElem? hn
  have hthreads : s'.threads = s.threads.modify n (Thread.step (some .progress)
      (PersistBackend.armProgressLease S th.act.server t)) := by
    rw [← hs', State.issue, hkind]
  have hrecorded : s'.recorded = some i.now := by
    rw [← hs']
    exact if_pos hkind
  have hconfirmed : s'.confirmed = s.confirmed := by
    rw [← hs', State.issue, hkind]
    rfl
  have hfired : s'.fired = s.fired := by
    rw [← hs', State.issue, hresets]
  have hopened : isOpen t s'.world → isOpen t s.world := by
    rw [← hs']
    exact isOpen_exec hcreate
  have hclock' : s'.clock = i.now := by rw [← hs', State.issue]
  have hlost : s'.lost = s.lost := by rw [← hs', State.issue]
  have hfewer : Fewer .progressLeases t s.world s'.world := by
    rw [← hs']
    exact fewer_exec hunarmed
  refine ⟨fun since hs => ?_, hlost ▸ h.lost, fun ho server hf due hd => ?_,
    fun ho hlease hp => ?_, hthreads ▸ forall_modify hn ?_ fun th' hold => ?_,
    fun th' hth' ha hover' => ?_⟩
  · rw [hrecorded] at hs
    cases hs
    exact hclock' ▸ le_refl _
  · obtain ⟨hlease, hrunning, _⟩ := h.armed (hopened ho) server (hfired ▸ hf) due
      (hfewer server due hd)
    refine ⟨hlease, hconfirmed ▸ hrunning, .inr ?_⟩
    have hserver : server = th.act.server := by
      by_contra hne
      have hnone := hfewer server due hd
      rw [hlone.alone (hopened ho) hlease server hne] at hnone
      cases hnone
    refine ⟨_, by rw [hthreads]; exact modify_mem hn, ?_⟩
    rw [armProgressLease_eq hlease]
    simp [Thread.arms, Thread.step, Prog.next?, hact, hserver]
  · rw [hconfirmed] at hp
    exact absurd hp (hlone.running (hopened ho) hlease)
  · refine .of_progress (fun ho => ?_) hact ?_
    · have ho' : th.ended = true := ho
      rw [hover] at ho'
      cases ho'
    · have hrec : (th.recorded || decide ((some TaskEventKind.progress) = some .progress)) = true :=
        by simp
      show Reports S t th.act.server (th.recorded || _) _
      rw [hrec]
      exact .arms
  · exact (h.sound th' hold).quiet fun ha => over_of_quiet hlone.quiet hold ha
  · rw [hthreads] at hth'
    obtain ⟨th₀, hth₀, hact₀, hover₀⟩ := under_modify step_same hth' hover'
    exact absurd ⟨th₀, hth₀, by rw [hact₀]; exact ha, hover₀⟩ hlone.quiet

/-- The timer is armed anew. -/
theorem Inv.rearm (h : Inv S t s) (hn : s.threads[n]? = some th)
    (hact : th.act.isProgress = true) (hrecorded : th.recorded = true)
    (hrest : th.rest = rearm S t th.act.server) (hlease : 0 < S.progressLeaseSeconds)
    (hclock : s.clock ≤ i.now) :
    Inv S t (s.issue S t n i
      (.timer (.schedule th.act.server .progressLeases t S.progressLeaseSeconds)) (.ret ())) := by
  generalize hs' : s.issue S t n i
    (.timer (.schedule th.act.server .progressLeases t S.progressLeaseSeconds)) (.ret ()) = s'
  have hth : th ∈ s.threads := List.mem_of_getElem? hn
  have hon : Arming s th.act.server := by
    refine ⟨th, hth, ?_⟩
    rw [Thread.arms, hrest]
    simp [hact, hrecorded, Silence.rearm, Prog.next?]
  have hworld : s'.world = s.world.setTimer th.act.server .progressLeases t
      (some (i.now + S.progressLeaseSeconds)) := by
    rw [← hs']
    rfl
  have hthreads : s'.threads = s.threads.modify n (Thread.step none (.ret ())) := by
    rw [← hs']
    rfl
  have hfired : s'.fired = Function.update s.fired th.act.server false := by
    rw [← hs', State.issue, resets, if_pos rfl]
  have hsame : s'.recorded = s.recorded ∧ s'.confirmed = s.confirmed ∧ s'.clock = i.now ∧
      s'.lost = s.lost := by
    rw [← hs']
    exact ⟨rfl, rfl, rfl, rfl⟩
  obtain ⟨hrec, hconf, hclock', hlost⟩ := hsame
  have hopened : isOpen t s'.world → isOpen t s.world := by
    rw [hworld]
    exact id
  have hends : ∀ server, (th.step none (.ret ())).arms server = false := by
    intro server
    simp [Thread.arms, Thread.step, Prog.next?]
  have harming : ∀ server, Arming s' server → Arming s server := fun server =>
    arming_modify hn hthreads fun ha => by rw [hends] at ha; cases ha
  have hcalmer : Calmer t s s' := ⟨by rw [hclock']; exact hclock, hrec, by rw [hconf]; exact id,
    hopened⟩
  refine ⟨fun since hs => ?_, hlost ▸ h.lost, fun ho server hf due hd => ?_,
    fun ho hl hp server ha => ?_, hthreads ▸ forall_modify hn ?_ fun th' hold => ?_,
    fun th' hth' ha hover' => ?_⟩
  · exact (h.begun since (hrec ▸ hs)).trans hcalmer.clock
  · have hrunning : s'.confirmed ≠ some .paused := fun hp =>
      h.calm (hopened ho) hlease (hconf ▸ hp) _ hon
    rw [hworld, setTimer_timers] at hd
    split at hd
    · cases hd
      refine ⟨hlease, hrunning, .inl fun since hs => ?_⟩
      exact Int.add_le_add_right ((h.begun since (hrec ▸ hs)).trans hclock) _
    · rename_i hne
      have hserver : server ≠ th.act.server := fun heq => hne ⟨heq, rfl, rfl⟩
      rw [hfired, Function.update_of_ne hserver] at hf
      obtain ⟨_, _, hlate⟩ := h.armed (hopened ho) server hf due hd
      refine ⟨hlease, hrunning, hlate.imp (fun hlate since hs => hlate since (hrec ▸ hs)) ?_⟩
      refine modify_arming hn hthreads fun ha => ?_
      simp only [Thread.arms, Bool.and_eq_true, decide_eq_true_eq] at ha
      exact absurd ha.1.1.2.symm hserver
  · exact h.calm (hopened ho) hl (hconf ▸ hp) server (harming server ha)
  · exact .of_progress (fun _ => rfl) hact (.ended rfl)
  · exact (h.sound th' hold).later hcalmer
  · rw [hthreads] at hth'
    obtain ⟨th₀, hth₀, hact₀, hover₀⟩ := under_modify step_same hth' hover'
    obtain ⟨hnone, hdue⟩ := h.alone th₀ hth₀ (by rw [hact₀]; exact ha) hover₀
    rw [hact₀] at hnone hdue
    have hserver : th'.act.server ≠ th.act.server := fun heq => hnone (heq ▸ hon)
    refine ⟨fun harm => hnone (harming _ harm), fun due hd => ?_⟩
    rw [hworld, setTimer_timers, if_neg fun heq => hserver heq.1] at hd
    rw [hfired, Function.update_of_ne hserver]
    exact hdue due hd

/-- Progress goes on where it does not arm the timer: it looks at the task, or comes to its end. -/
theorem Inv.goOn (h : Inv S t s) (hn : s.threads[n]? = some th) (hact : th.act.isProgress = true)
    (hover : th.ended = false) (hclock : s.clock ≤ i.now)
    (hunarmed : Unarmed .progressLeases c) (hcreate : ∀ row, c ≠ .task (.create row))
    (hkind : recordedKind t s.world c = none) (hon : th.rest.next?.isSome = true)
    (hreports : Reports S t th.act.server th.recorded rest)
    (hgoes : isOpen t s.world → th.recorded = true → rest.next?.isSome = true) :
    Inv S t (s.issue S t n i c rest) := by
  have hs : Unarming t s (s.issue S t n i c rest) := by
    refine unarming_issue hn hunarmed hcreate ?_ ?_ hclock (fun server ha => ?_)
      fun ho server ha => ?_
    · rw [hkind]
      exact nofun
    · rw [hkind]
      exact nofun
    · rw [hkind] at ha
      simp only [Thread.arms, Thread.step, Bool.and_eq_true] at ha ⊢
      exact ⟨⟨ha.1.1, by simpa using ha.1.2⟩, hon⟩
    · rw [hkind]
      simp only [Thread.arms, Thread.step, Bool.and_eq_true] at ha ⊢
      exact ⟨⟨ha.1.1, by simp [ha.1.2]⟩, hgoes ho ha.1.2⟩
  refine h.calmer hs (forall_modify hn ?_ fun th' hold => (h.sound th' hold).later hs.toCalmer)
    fun th' hth' _ hover' => .inl (under_modify step_same hth' hover')
  refine .of_progress (fun ho => ?_) hact ?_
  · have ho' : th.ended = true := ho
    rw [hover] at ho'
    cases ho'
  · rw [hkind]
    simpa [Thread.step] using hreports

/-- The first statement of a Progress. -/
theorem Inv.fresh (h : Inv S t s) (hn : s.threads[n]? = some th)
    (hact : th.act.isProgress = true) (hrecorded : th.recorded = false) (hover : th.ended = false)
    {percent : Option Int} {message : Option EventText}
    (hrest : th.rest = PersistBackend.onAgentProgress S th.act.server t percent message)
    (hclock : s.clock ≤ i.now)
    (hlone : ∀ c ∈ th.rest.next?, recordedKind t s.world c = some .progress →
      LoneProgress S t s th.act.server) : Inv S t (s.run S t n i) := by
  have hstmt := hrest.trans onAgentProgress_eq
  rw [run_of_stmt hn hstmt]
  rw [hstmt] at hlone
  have hlone := hlone _ rfl
  generalize hevent : TaskEvent.mk t .progress none none percent message = event at hlone ⊢
  have htask : event.task = t := by rw [← hevent]
  have hkind : event.kind = .progress := by rw [← hevent]
  have hcreate : ∀ row, Stmt.task (.createEvent event) ≠ .task (.create row) := by
    intro row heq
    cases heq
  cases hg : s.world.db.tasks.get t with
  | none =>
    have hnone : recordedKind t s.world (.task (.createEvent event)) = none := by
      simp [recordedKind, htask, hg]
    have hanswer : (exec S i (.task (.createEvent event)) s.world).1 = false := by
      simp [exec, createEvent_exec, htask, hg]
    refine h.goOn hn hact hover hclock trivial hcreate hnone (by rw [hstmt]; rfl) ?_ ?_
    · rw [hanswer]
      exact .ended rfl
    · intro _ hr
      rw [hrecorded] at hr
      cases hr
  | some task =>
    have hsome : recordedKind t s.world (.task (.createEvent event)) = some .progress := by
      simp [recordedKind, htask, hkind, hg]
    have hanswer : (exec S i (.task (.createEvent event)) s.world).1 = true :=
      congrArg Prod.fst (exec_createEvent (by rw [htask, hg]; rfl))
    rw [hanswer]
    exact h.record hn hact hover trivial hcreate rfl hsome (hlone hsome)

/-- It has recorded the Progress, and looks at the task. -/
theorem Inv.look (h : Inv S t s) (hn : s.threads[n]? = some th)
    (hact : th.act.isProgress = true) (hrecorded : th.recorded = true) (hover : th.ended = false)
    (hrest : th.rest = PersistBackend.armProgressLease S th.act.server t)
    (hlease : 0 < S.progressLeaseSeconds) (hphysical : Physical t s.world)
    (hclock : s.clock ≤ i.now) : Inv S t (s.run S t n i) := by
  have hstmt := hrest.trans (armProgressLease_eq hlease)
  rw [run_of_stmt hn hstmt]
  have hon : th.rest.next?.isSome = true := by rw [hstmt]; rfl
  have hcreate : ∀ row, Stmt.read (.taskImplementation t) ≠ .task (.create row) := by
    intro row heq
    cases heq
  have hanswer : (exec S i (.read (.taskImplementation t)) s.world).1 =
      (s.world.db.tasks.get t).map fun row =>
        (row, row.implementation.bind s.world.db.implementations.get) := rfl
  rw [hanswer]
  cases hg : s.world.db.tasks.get t with
  | none =>
    refine h.goOn hn hact hover hclock trivial hcreate rfl hon (.ended rfl) fun ho _ => ?_
    obtain ⟨task, hg', _⟩ := isOpen_iff.mp ho
    rw [hg] at hg'
    cases hg'
  | some task =>
    have heffect := hphysical task hg
    show Inv S t (s.issue S t n i _ (if task.isDone ||
      ((task.implementation.bind s.world.db.implementations.get).map (·.effect)) != some .physical
        then .ret () else Silence.rearm S t th.act.server))
    rw [heffect]
    cases hd : task.isDone with
    | true =>
      refine h.goOn hn hact hover hclock trivial hcreate rfl hon (.ended rfl) fun ho _ => ?_
      obtain ⟨task', hg', hd'⟩ := isOpen_iff.mp ho
      rw [hg] at hg'
      cases hg'
      rw [hd] at hd'
      cases hd'
    | false =>
      refine h.goOn hn hact hover hclock trivial hcreate rfl hon ?_ fun _ _ => rfl
      rw [hrecorded]
      exact .rearms hlease

/-- The next statement of a Progress. -/
theorem Inv.progress (h : Inv S t s) (hn : s.threads[n]? = some th)
    (hact : th.act.isProgress = true) (hon : th.rest.next?.isSome = true)
    (hphysical : Physical t s.world) (hclock : s.clock ≤ i.now)
    (hlone : ∀ c ∈ th.rest.next?, recordedKind t s.world c = some .progress →
      LoneProgress S t s th.act.server) : Inv S t (s.run S t n i) := by
  have hsound := h.sound th (List.mem_of_getElem? hn)
  have hover : th.ended = false := by
    cases hover : th.ended with
    | false => rfl
    | true =>
      rw [hsound.ended hover] at hon
      cases hon
  have hreports := hsound.progress hact
  generalize hrecorded : th.recorded = recorded at hreports
  generalize hrest : th.rest = left at hreports
  cases hreports with
  | fresh percent message => exact h.fresh hn hact hrecorded hover hrest hclock hlone
  | arms =>
    by_cases hlease : 0 < S.progressLeaseSeconds
    · exact h.look hn hact hrecorded hover hrest hlease hphysical hclock
    · rw [hrest, armProgressLease_disabled hlease] at hon
      cases hon
  | rearms hlease =>
    rw [run_of_stmt hn hrest]
    exact h.rearm hn hact hrecorded hrest hlease hclock
  | ended hend =>
    rw [hrest, hend] at hon
    cases hon

/-! ## Steps -/

theorem Inv.run (h : Inv S t s) (hn : s.threads[n]? = some th)
    (hon : th.rest.next?.isSome = true)
    (hphysical : th.act.isProgress = true → Physical t s.world) (hclock : s.clock ≤ i.now)
    (hlone : ∀ c ∈ th.rest.next?,
      (recordedKind t s.world c = some .progress → LoneProgress S t s th.act.server) ∧
        (recordedKind t s.world c = some .paused → LonePaused t s)) :
    Inv S t (s.run S t n i) := by
  cases hact : th.act.isProgress with
  | true => exact h.progress hn hact hon (hphysical hact) hclock fun c hc => (hlone c hc).1
  | false =>
    cases hrest : th.rest with
    | stmt c k =>
      rw [run_of_stmt hn hrest]
      exact h.issue hn hrest hact hclock (hlone c (by rw [hrest]; rfl)).2
    | ret a =>
      rw [hrest] at hon
      cases hon
    | fail err =>
      rw [hrest] at hon
      cases hon

/-- A report arrives, or the timer that is registered fires. -/
theorem Inv.begin (h : Inv S t s) (act : Act) (hthreads : s'.threads = s.threads ++ [act.thread S t])
    (hclock : s.clock ≤ s'.clock) (hworld : s'.world = s.world) (hrecorded : s'.recorded = s.recorded)
    (hconfirmed : s'.confirmed = s.confirmed) (hlost : s'.lost = s.lost)
    (hfired : ∀ server, s.fired server = true → s'.fired server = true)
    (hact : act.isAction = true → (isOpen t s'.world → Silent S s' s'.clock) ∧
      ¬ Arming s act.server ∧ s'.fired act.server = true) : Inv S t s' := by
  have hs : Unarming t s s' := {
    clock := hclock
    recorded := hrecorded
    confirmed := by rw [hconfirmed]; exact id
    opened := by rw [hworld]; exact id
    lost := hlost
    fewer := by rw [hworld]; exact fun _ _ hd => hd
    fired := fun server hf => .inl (hfired server hf)
    arming := fun server => (arming_append hthreads).mp
    armed := fun _ server => (arming_append hthreads).mpr }
  refine h.calmer hs (fun th hth => ?_) fun th hth ha hover => ?_
  · rw [hthreads] at hth
    rcases List.mem_append.mp hth with hold | hnew
    · exact (h.sound th hold).later hs.toCalmer
    · cases List.mem_singleton.mp hnew
      exact sound_thread fun ha => (hact ha).1
  · rw [hthreads] at hth
    rcases List.mem_append.mp hth with hold | hnew
    · exact .inl ⟨th, hold, rfl, hover⟩
    · cases List.mem_singleton.mp hnew
      exact .inr (hact ha).2

/-- A thread ends. -/
theorem Inv.stop (h : Inv S t s) (hn : s.threads[n]? = some th) {f : Thread → Thread}
    (hthreads : s'.threads = s.threads.modify n f) (hf : ∀ th, (f th).act = th.act ∧
      ((f th).ended = false → th.ended = false)) (hend : (f th).rest.next? = none)
    (harms : ∀ server, th.arms server = false)
    (hclock : s.clock ≤ s'.clock) (hrecorded : s'.recorded = s.recorded)
    (hconfirmed : s'.confirmed = s.confirmed) (hlost : s'.lost = s.lost)
    (hfired : s'.fired = s.fired) (hfewer : Fewer .progressLeases t s.world s'.world)
    (hopened : isOpen t s'.world → isOpen t s.world) : Inv S t s' := by
  have hends : ∀ server, (f th).arms server = false := by
    intro server
    simp [Thread.arms, hend]
  have hs : Unarming t s s' := {
    clock := hclock
    recorded := hrecorded
    confirmed := by rw [hconfirmed]; exact id
    opened := hopened
    lost := hlost
    fewer := hfewer
    fired := fun server hf => .inl (by rw [hfired]; exact hf)
    arming := fun server => arming_modify hn hthreads fun ha => by rw [hends] at ha; cases ha
    armed := fun _ server => modify_arming hn hthreads fun ha => by rw [harms] at ha; cases ha }
  refine h.calmer hs (hthreads ▸ forall_modify hn ?_ fun th' hold =>
    (h.sound th' hold).later hs.toCalmer) fun th' hth' _ hover => ?_
  · have hissues : ∀ P, (f th).rest.Issues P := by
      intro P
      cases hrest : (f th).rest with
      | stmt c k =>
        rw [hrest] at hend
        cases hend
      | ret a => trivial
      | fail err => trivial
    exact ⟨fun _ => hend, fun _ => .ended hend, fun _ => ⟨hissues _, fun _ => .inr (.inr (hissues _))⟩,
      fun _ => hissues _⟩
  · rw [hthreads] at hth'
    exact .inl (under_modify hf hth' hover)

theorem Inv.finish (h : Inv S t s) (hn : s.threads[n]? = some th) (hover : th.ended = false)
    (hend : th.rest.next? = none) {now : Time} (hclock : s.clock ≤ now) :
    Inv S t { s.finish t n with clock := now } := by
  have hends : ∀ server, th.arms server = false := by
    intro server
    simp [Thread.arms, hend]
  have hf : ∀ th : Thread, ({ th with ended := true } : Thread).act = th.act ∧
      (({ th with ended := true } : Thread).ended = false → th.ended = false) :=
    fun th => ⟨rfl, fun hended => by cases hended⟩
  unfold State.finish
  rw [hn]
  dsimp only
  cases hact : th.act with
  | action server =>
    -- the entry that it removes is its own
    have hth : th ∈ s.threads := List.mem_of_getElem? hn
    obtain ⟨_, hdue⟩ := h.alone th hth (by rw [hact]; rfl) hover
    rw [hact] at hdue
    refine h.stop (f := fun th => { th with ended := true }) hn rfl hf hend hends hclock rfl rfl ?_
      rfl fewer_cancel id
    simp only [State.pop]
    cases hd : s.world.timers server .progressLeases t with
    | none => rfl
    | some due =>
      have hfired : s.fired server = true := hdue due hd
      simp [hfired]
  | progress server percent message =>
    exact h.stop (f := fun th => { th with ended := true }) hn rfl hf hend hends hclock rfl rfl rfl
      rfl .refl id
  | paused server =>
    exact h.stop (f := fun th => { th with ended := true }) hn rfl hf hend hends hclock rfl rfl rfl
      rfl .refl id
  | resumed server =>
    exact h.stop (f := fun th => { th with ended := true }) hn rfl hf hend hends hclock rfl rfl rfl
      rfl .refl id
  | started server =>
    exact h.stop (f := fun th => { th with ended := true }) hn rfl hf hend hends hclock rfl rfl rfl
      rfl .refl id

theorem Inv.step {e : Event} (h : Inv S t s) (hpossible : Possible t s e) (hlone : Lone S t s e) :
    Inv S t (s.next S t e) := by
  obtain ⟨input, move⟩ := e
  obtain ⟨hclock, hpossible⟩ := hpossible
  cases move with
  | report act =>
    have hact : act.isAction = false := hpossible
    exact h.begin act rfl hclock rfl rfl rfl rfl (fun _ hf => hf) fun ha => by
      rw [hact] at ha
      cases ha
  | run n =>
    obtain ⟨th, hn, hon, hphysical⟩ := hpossible
    exact h.run hn hon hphysical hclock (hlone th hn)
  | expire server =>
    obtain ⟨hfired, due, hdue, hpast⟩ := hpossible
    refine h.begin (.action server) rfl hclock rfl rfl rfl rfl (fun server' hf => ?_)
      fun _ => ⟨fun ho => ?_, hlone, Function.update_self ..⟩
    · by_cases hserver : server' = server
      · rw [hserver]
        exact Function.update_self ..
      · show Function.update s.fired server true server' = true
        rw [Function.update_of_ne hserver]
        exact hf
    · obtain ⟨_, hrunning, hlate⟩ := h.armed ho server hfired due hdue
      rcases hlate with hlate | hon
      · exact ⟨fun since hs => (hlate since hs).trans hpast, hrunning⟩
      · exact absurd hon hlone
  | expireLost server due =>
    obtain ⟨hmem, _⟩ := hpossible
    rw [h.lost server] at hmem
    cases hmem
  | stop n =>
    obtain ⟨th, hn, hact⟩ := hpossible
    have harms : ∀ server, th.arms server = false := by
      intro server
      have hnot : th.act.isProgress = false := by
        cases hth : th.act with
        | progress server percent message =>
          rw [hth] at hact
          cases hact
        | _ => rfl
      simp [Thread.arms, hnot]
    exact h.stop (f := fun th => { th with rest := .ret () }) hn rfl (fun _ => ⟨rfl, id⟩) rfl harms
      hclock rfl rfl rfl rfl .refl id
  | finish n =>
    obtain ⟨th, hn, hover, hend⟩ := hpossible
    exact h.finish hn hover hend hclock
  | other w =>
    obtain ⟨hfewer, hopened⟩ := hpossible
    have hs : Unarming t s (s.next S t ⟨input, .other w⟩) := {
      clock := hclock
      recorded := rfl
      confirmed := id
      opened := hopened
      lost := rfl
      fewer := hfewer
      fired := fun server hf => .inl hf
      arming := fun server => id
      armed := fun _ server => id }
    exact h.calmer hs (fun th hth => (h.sound th hth).later hs.toCalmer)
      fun th hth _ hover => .inl ⟨th, hth, rfl, hover⟩

/-! ## The lease -/

/-- An action that writes on the task finds it silent. -/
theorem silent_of_strikes {e : Event} (h : Inv S t s) (hpossible : Possible t s e)
    (hstrikes : strikes s e = true) : Silent S s e.input.now := by
  obtain ⟨input, move⟩ := e
  cases move with
  | run n =>
    obtain ⟨th, hn, hth⟩ := (Option.any_eq_true _ _).mp hstrikes
    obtain ⟨hact, hwrites⟩ := (Bool.and_eq_true _ _).mp hth
    obtain ⟨c, hc, hwrites⟩ := (Option.any_eq_true _ _).mp hwrites
    have hsound := h.sound th (List.mem_of_getElem? hn)
    have hover : th.ended = false := by
      cases hover : th.ended with
      | false => rfl
      | true =>
        rw [hsound.ended hover] at hc
        cases hc
    rcases (hsound.action hact).2 hover with ⟨hrest, _⟩ | hsilent | hquiet
    · -- its first statement is a read
      rw [hrest] at hc
      cases hc
      cases hwrites
    · exact hsilent.later hpossible.1 rfl id
    · rw [hquiet.next hc] at hwrites
      cases hwrites
  | _ => cases hstrikes

/-- **Silence is real** in every run in which no timer overtakes a Progress, and Progress and Paused
come alone. -/
theorem silence_honoured (S : Settings) (t : TaskId) (w : World) (start : Time)
    (confirmed : Option TaskEventKind) (events : List Event)
    (hnone : ∀ server, w.timers server .progressLeases t = none)
    (hrun : Along (State.next S t) (fun s e => Possible t s e ∧ Lone S t s e)
      { world := w, clock := start, confirmed := confirmed } events) :
    Honoured S t { world := w, clock := start, confirmed := confirmed } events := by
  have hstart : Inv S t { world := w, clock := start, confirmed := confirmed } := by
    refine ⟨nofun, fun _ => rfl, fun _ server _ due hd => ?_, fun _ _ _ server ha => ?_, nofun, nofun⟩
    · have hd' : w.timers server .progressLeases t = some due := hd
      rw [hnone server] at hd'
      cases hd'
    · obtain ⟨th, hth, _⟩ := ha
      cases hth
  refine (hrun.with_inv (fun s e h hok => h.step hok.1 hok.2) hstart).mono ?_
  intro s e h hstrikes
  exact silent_of_strikes h.1 h.2.1 hstrikes

/-! ## Two processes -/

def moment (now : Time) (move : Move) : Event := ⟨{ now := now }, move⟩

/-- A report of the task, from its arrival to its end. -/
def reported (now : Time) (n : Nat) (percent : Int) (server : ServerId) : List Event :=
  [moment now (.report (.progress server (some percent) none)), moment now (.run n),
    moment now (.run n), moment now (.run n), moment now (.finish n)]

/-- A lease of thirty seconds. -/
def leased : Settings := { progressLease := some 30 }

def started : State :=
  { world := runningWorld .physical, clock := 0, confirmed := some .started }

/-- Task 1 reports Progress at one process and then goes silent. -/
def goneSilent : List Event :=
  reported 1 0 10 0 ++ [moment 31 (.expire 0), moment 31 (.run 1), moment 31 (.run 1)]

theorem goneSilent_honoured : Honoured leased 1 started goneSilent := by
  have hphysical : Physical 1 (runningWorld .physical) := by decide +kernel
  have hlone : LoneProgress leased 1
      (started.next leased 1 (moment 1 (.report (.progress 0 (some 10) none)))) 0 :=
    ⟨by decide +kernel, fun _ _ _ _ => rfl, by decide⟩
  refine silence_honoured leased 1 (runningWorld .physical) 0 (some .started) goneSilent
    (fun _ => rfl) ⟨⟨⟨by decide, rfl⟩, trivial⟩,
      ⟨⟨by decide, _, rfl, rfl, fun _ => hphysical⟩, ?_⟩,
      ⟨⟨by decide, _, rfl, rfl, fun _ => by decide +kernel⟩, ?_⟩,
      ⟨⟨by decide, _, rfl, rfl, fun _ => by decide +kernel⟩, ?_⟩,
      ⟨⟨by decide, _, rfl, rfl, rfl⟩, trivial⟩,
      ⟨⟨by decide, rfl, 31, ?_, by decide⟩, ?_⟩,
      ⟨⟨by decide, _, rfl, rfl, nofun⟩, ?_⟩,
      ⟨⟨by decide, _, rfl, rfl, nofun⟩, ?_⟩, trivial⟩
  · intro th hth c hc
    cases hth
    cases hc
    exact ⟨fun _ => hlone, fun hkind => absurd hkind (by decide +kernel)⟩
  · intro th hth c hc
    cases hth
    cases hc
    exact ⟨nofun, nofun⟩
  · intro th hth c hc
    cases hth
    cases hc
    exact ⟨nofun, nofun⟩
  · decide +kernel
  · show ¬ Arming _ _
    decide +kernel
  · intro th hth c hc
    cases hth
    cases hc
    exact ⟨nofun, nofun⟩
  · intro th hth c hc
    cases hth
    cases hc
    exact ⟨fun hkind => absurd hkind (by decide +kernel),
      fun hkind => absurd hkind (by decide +kernel)⟩

/-- The later Progress comes to another process: the timer of the first acts within its lease. -/
theorem stale_lease_acts :
    ¬ Honoured leased 1 started (reported 1 0 10 0 ++ reported 10 1 20 1 ++
      [moment 31 (.expire 0), moment 31 (.run 2), moment 31 (.run 2)]) := by
  unfold Honoured
  decide +kernel

/-- The timer fires where the later Progress, recorded in its process, is about to arm it anew. -/
example : ¬ Honoured leased 1 started (reported 1 0 10 0 ++
    [moment 30 (.report (.progress 0 (some 20) none)), moment 30 (.run 1),
      moment 31 (.expire 0), moment 31 (.run 2), moment 31 (.run 2)]) := by
  unfold Honoured
  decide +kernel

end Silence
end Rekuest
