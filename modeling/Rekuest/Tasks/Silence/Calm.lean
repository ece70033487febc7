import Rekuest.Tasks.Silence.Threads

/-!
# Rekuest.Tasks.Silence.Calm

What holds of the threads of a task whose Progress comes alone.

* `Inv`: where the task is open, no timer of it ends before the lease does, unless a Progress is on its
  way to arm it anew; `Sound`: what a thread has left, `Due` that of an action.
* `Unarming`: an event that arms nothing and records neither Progress nor a pause.
* `Inv.issue`: a statement of an action, or of a report that is no Progress, keeps `Inv`.
-/

namespace Rekuest
namespace Silence

open Interleave Interleave.Prog

variable {S : Settings} {t : TaskId} {w w' : World} {server : ServerId} {i : Input} {c : Stmt}

/-! ## Invariants -/

/-- What an action has left: it has not looked yet, and will act on an open task only where it is
silent; or it has, and acts on a silent one; or it writes no more. -/
def Due (S : Settings) (t : TaskId) (s : State) (rest : Handler Unit) : Prop :=
  (rest = PersistBackend.reconcileSilentPhysicalOp t ∧ (isOpen t s.world → Silent S s s.clock)) ∨
    Silent S s s.clock ∨ rest.Issues fun c => writesTask c = false

/-- What a Progress has left. -/
inductive Reports (S : Settings) (t : TaskId) (server : ServerId) : Bool → Handler Unit → Prop
  | fresh (percent : Option Int) (message : Option EventText) : Reports S t server false
      (PersistBackend.onAgentProgress S server t percent message)
  | arms : Reports S t server true (PersistBackend.armProgressLease S server t)
  | rearms (hlease : 0 < S.progressLeaseSeconds) : Reports S t server true (rearm S t server)
  | ended {recorded : Bool} {rest : Handler Unit} (h : rest.next? = none) :
      Reports S t server recorded rest

structure Sound (S : Settings) (t : TaskId) (s : State) (th : Thread) : Prop where
  ended : th.ended = true → th.rest.next? = none
  progress : th.act.isProgress = true → Reports S t th.act.server th.recorded th.rest
  action : th.act.isAction = true →
    th.rest.Issues Acting ∧ (th.ended = false → Due S t s th.rest)
  mild : th.act.isProgress = false → th.rest.Issues Mild

/-- The last Progress lies in the past, and no process has lost a timer; where the task is open, no
timer of it ends before the lease does, unless a Progress is on its way to arm it anew, and there is
none while it is paused; and the process of an action has no other timer. -/
structure Inv (S : Settings) (t : TaskId) (s : State) : Prop where
  begun : ∀ since ∈ s.recorded, since ≤ s.clock
  lost : ∀ server, s.lost server = []
  armed : isOpen t s.world → ∀ server, s.fired server = false →
    ∀ due ∈ s.world.timers server .progressLeases t, 0 < S.progressLeaseSeconds ∧
      s.confirmed ≠ some .paused ∧
        ((∀ since ∈ s.recorded, since + S.progressLeaseSeconds ≤ due) ∨ Arming s server)
  calm : isOpen t s.world → 0 < S.progressLeaseSeconds → s.confirmed = some .paused →
    ∀ server, ¬ Arming s server
  sound : ∀ th ∈ s.threads, Sound S t s th
  alone : ∀ th ∈ s.threads, th.act.isAction = true → th.ended = false →
    ¬ Arming s th.act.server ∧ ∀ due ∈ s.world.timers th.act.server .progressLeases t,
      s.fired th.act.server = true

variable {s s' : State} {th : Thread} {n : Nat} {rest : Handler Unit}

theorem Silent.later {now : Time} (h : Silent S s s.clock) (hclock : s.clock ≤ now)
    (hrecorded : s'.recorded = s.recorded)
    (hconfirmed : s'.confirmed = some .paused → s.confirmed = some .paused) :
    Silent S s' now := by
  refine ⟨fun since hs => ?_, fun hp => h.2 (hconfirmed hp)⟩
  rw [hrecorded] at hs
  exact (h.1 since hs).trans hclock

/-- Nothing has been recorded since, and the task was not opened. -/
structure Calmer (t : TaskId) (s s' : State) : Prop where
  clock : s.clock ≤ s'.clock
  recorded : s'.recorded = s.recorded
  confirmed : s'.confirmed = some .paused → s.confirmed = some .paused
  opened : isOpen t s'.world → isOpen t s.world

theorem Due.later (h : Due S t s rest) (hs : Calmer t s s') : Due S t s' rest := by
  rcases h with ⟨hrest, hsilent⟩ | hsilent | hquiet
  · exact .inl ⟨hrest, fun ho =>
      (hsilent (hs.opened ho)).later hs.clock hs.recorded hs.confirmed⟩
  · exact .inr (.inl (hsilent.later hs.clock hs.recorded hs.confirmed))
  · exact .inr (.inr hquiet)

theorem Sound.later (h : Sound S t s th) (hs : Calmer t s s') : Sound S t s' th where
  ended := h.ended
  progress := h.progress
  action ha := ⟨(h.action ha).1, fun ho => ((h.action ha).2 ho).later hs⟩
  mild := h.mild

/-- Nothing is armed, and the Progresses on their way are those that were, at least while the task is
open. -/
structure Unarming (t : TaskId) (s s' : State) : Prop extends Calmer t s s' where
  lost : s'.lost = s.lost
  fewer : Fewer .progressLeases t s.world s'.world
  fired : ∀ server, s.fired server = true →
    s'.fired server = true ∨ s'.world.timers server .progressLeases t = none
  arming : ∀ server, Arming s' server → Arming s server
  armed : isOpen t s'.world → ∀ server, Arming s server → Arming s' server

/-- After such an event, an action is under way that was before, or one that finds its process so. -/
theorem Inv.calmer (h : Inv S t s) (hs : Unarming t s s')
    (hsound : ∀ th ∈ s'.threads, Sound S t s' th)
    (hunder : ∀ th ∈ s'.threads, th.act.isAction = true → th.ended = false →
      (∃ th₀ ∈ s.threads, th₀.act = th.act ∧ th₀.ended = false) ∨
        ¬ Arming s th.act.server ∧ s'.fired th.act.server = true) : Inv S t s' where
  begun since hsince := (h.begun since (hs.recorded ▸ hsince)).trans hs.clock
  lost := by
    rw [hs.lost]
    exact h.lost
  armed ho server hf due hd := by
    have hold : s.fired server = false := by
      cases hold : s.fired server with
      | false => rfl
      | true =>
        rcases hs.fired server hold with hnew | hnone
        · rw [hnew] at hf
          cases hf
        · rw [hnone] at hd
          cases hd
    obtain ⟨hlease, hrunning, hlate⟩ := h.armed (hs.opened ho) server hold due
      (hs.fewer server due hd)
    refine ⟨hlease, fun hp => hrunning (hs.confirmed hp), ?_⟩
    rcases hlate with hlate | hon
    · exact .inl fun since hsince => hlate since (hs.recorded ▸ hsince)
    · exact .inr (hs.armed ho server hon)
  calm ho hlease hp server harm :=
    h.calm (hs.opened ho) hlease (hs.confirmed hp) server (hs.arming server harm)
  sound := hsound
  alone th hth ha hover := by
    rcases hunder th hth ha hover with ⟨th₀, hth₀, hact, hover₀⟩ | ⟨hnone, hfired⟩
    · obtain ⟨hnone, hdue⟩ := h.alone th₀ hth₀ (by rw [hact]; exact ha) hover₀
      rw [hact] at hnone hdue
      refine ⟨fun harm => hnone (hs.arming _ harm), fun due hd => ?_⟩
      rcases hs.fired _ (hdue due (hs.fewer _ due hd)) with hnew | hgone
      · exact hnew
      · rw [hgone] at hd
        cases hd
    · exact ⟨fun harm => hnone (hs.arming _ harm), fun _ _ => hfired⟩

/-! ## Threads of a state -/

theorem mem_modify {α : Type} {l : List α} {f : α → α} {x : α} (h : x ∈ l.modify n f) :
    (∃ y, l[n]? = some y ∧ x = f y) ∨ x ∈ l := by
  obtain ⟨m, hm⟩ := List.mem_iff_getElem?.mp h
  rw [List.getElem?_modify] at hm
  split at hm
  · rename_i heq
    obtain ⟨y, hy, rfl⟩ := Option.map_eq_some_iff.mp hm
    exact .inl ⟨y, by rw [heq]; exact hy, rfl⟩
  · refine .inr (List.mem_of_getElem? (i := m) ?_)
    simpa using hm

/-- What holds of the one that goes on, and of all there were, holds of all. -/
theorem forall_modify {α : Type} {l : List α} {f : α → α} {x : α} {P : α → Prop}
    (hx : l[n]? = some x) (hself : P (f x)) (hothers : ∀ y ∈ l, P y) : ∀ y ∈ l.modify n f, P y := by
  intro y hy
  rcases mem_modify hy with ⟨x', hx', rfl⟩ | hold
  · rw [hx] at hx'
    cases hx'
    exact hself
  · exact hothers y hold

theorem modify_mem {α : Type} {l : List α} {f : α → α} {x : α} (h : l[n]? = some x) :
    f x ∈ l.modify n f := by
  refine List.mem_of_getElem? (i := n) ?_
  rw [List.getElem?_modify, h]
  simp

theorem mem_modify_or {α : Type} {l : List α} {f : α → α} {x : α} (h : x ∈ l) :
    l[n]? = some x ∨ x ∈ l.modify n f := by
  obtain ⟨m, hm⟩ := List.mem_iff_getElem?.mp h
  by_cases hmn : n = m
  · exact .inl (by rw [hmn]; exact hm)
  · refine .inr (List.mem_of_getElem? (i := m) ?_)
    rw [List.getElem?_modify, hm]
    simp [hmn]

/-- One thread goes on, and arms where it armed before. -/
theorem arming_modify {f : Thread → Thread} (hn : s.threads[n]? = some th)
    (hthreads : s'.threads = s.threads.modify n f) (harms : (f th).arms server → th.arms server)
    (h : Arming s' server) : Arming s server := by
  obtain ⟨th', hth', ha⟩ := h
  rw [hthreads] at hth'
  rcases mem_modify hth' with ⟨th₀, hn', rfl⟩ | hold
  · obtain rfl : th = th₀ := Option.some.inj (hn.symm.trans hn')
    exact ⟨th, List.mem_of_getElem? hn, harms ha⟩
  · exact ⟨th', hold, ha⟩

theorem modify_arming {f : Thread → Thread} (hn : s.threads[n]? = some th)
    (hthreads : s'.threads = s.threads.modify n f) (harms : th.arms server → (f th).arms server)
    (h : Arming s server) : Arming s' server := by
  obtain ⟨th', hth', ha⟩ := h
  rcases mem_modify_or (n := n) (f := f) hth' with hn' | hnew
  · obtain rfl : th = th' := Option.some.inj (hn.symm.trans hn')
    exact ⟨f th, by rw [hthreads]; exact modify_mem hn, harms ha⟩
  · exact ⟨th', by rw [hthreads]; exact hnew, ha⟩

theorem arming_append {act : Act} (hthreads : s'.threads = s.threads ++ [act.thread S t]) :
    Arming s' server ↔ Arming s server := by
  have hfresh : (act.thread S t).arms server = false := by simp [Thread.arms, Act.thread]
  unfold Arming
  rw [hthreads]
  simp [hfresh]

theorem sound_thread {act : Act} (hact : act.isAction = true → isOpen t s.world →
    Silent S s s.clock) : Sound S t s (act.thread S t) where
  ended h := by cases h
  progress h := by
    cases act with
    | progress server percent message => exact .fresh percent message
    | _ => cases h
  action h := by
    cases act with
    | action server => exact ⟨reconcile_acting, fun _ => .inl ⟨rfl, hact h⟩⟩
    | _ => cases h
  mild h := by
    cases act with
    | progress server percent message => cases h
    | paused server =>
      show (PersistBackend.onNonterminalConfirm server t .paused true).Issues Mild
      exact confirm_mild (by decide)
    | resumed server =>
      show (PersistBackend.onNonterminalConfirm server t .resumed false).Issues Mild
      exact confirm_mild (by decide)
    | started server =>
      show (PersistBackend.onNonterminalConfirm server t .started false).Issues Mild
      exact confirm_mild (by decide)
    | action server => exact reconcile_acting.mono fun _ => mild_of_acting

/-! ## Statements -/

theorem recordedKind_mild (h : Mild c) : recordedKind t w c ≠ some .progress := by
  unfold recordedKind
  split
  · split
    · exact fun heq => h (Option.some.inj heq)
    · exact nofun
  · exact nofun

/-- A statement that arms no timer drops the one that it resets. -/
theorem timers_of_resets (h : Unarmed .progressLeases c) (hresets : resets t c = some server) :
    (exec S i c w).2.timers server .progressLeases t = none := by
  unfold resets at hresets
  split at hresets
  · exact absurd rfl h
  · split at hresets
    · rename_i server' key hkey
      cases hresets
      subst hkey
      show (w.setTimer server .progressLeases key none).timers server .progressLeases key = none
      simp [setTimer_timers]
    · cases hresets
  · cases hresets

/-- A statement that arms no timer, creates no task, and records neither Progress nor a pause. -/
theorem unarming_issue (hn : s.threads[n]? = some th) (hunarmed : Unarmed .progressLeases c)
    (hcreate : ∀ row, c ≠ .task (.create row)) (hprogress : recordedKind t s.world c ≠ some .progress)
    (hpaused : recordedKind t s.world c ≠ some .paused) (hclock : s.clock ≤ i.now)
    (harming : ∀ server, (th.step (recordedKind t s.world c) rest).arms server → th.arms server)
    (harmed : isOpen t s.world → ∀ server, th.arms server →
      (th.step (recordedKind t s.world c) rest).arms server) :
    Unarming t s (s.issue S t n i c rest) := by
  have hopened : isOpen t (s.issue S t n i c rest).world → isOpen t s.world := isOpen_exec hcreate
  refine {
    clock := hclock
    recorded := if_neg hprogress
    confirmed := fun hp => ?_
    opened := hopened
    lost := rfl
    fewer := fewer_exec hunarmed
    fired := fun server hf => ?_
    arming := fun server => arming_modify hn rfl (harming server)
    armed := fun ho server => modify_arming hn rfl (harmed (hopened ho) server) }
  · have hconfirmed : (if (recordedKind t s.world c).any isLifecycle then recordedKind t s.world c
        else s.confirmed) = some .paused := hp
    split at hconfirmed
    · exact absurd hconfirmed hpaused
    · exact hconfirmed
  · simp only [State.issue]
    cases hresets : resets t c with
    | none => exact .inl hf
    | some server' =>
      by_cases hserver : server = server'
      · subst hserver
        exact .inr (timers_of_resets hunarmed hresets)
      · exact .inl (by simp [hserver, hf])

/-- A thread that goes on arms no more than before, if it is no Progress. -/
theorem arms_step {kind : Option TaskEventKind} (h : th.act.isProgress = false) :
    (th.step kind rest).arms server = th.arms server := by
  simp [Thread.arms, Thread.step, h]

theorem Due.step {k : Statements.Ans c → Handler Unit} (h : Due S t s (.stmt c k))
    (hs : Calmer t s s') : Due S t s' (k (exec S i c s.world).1) := by
  rcases h with ⟨hrest, hsilent⟩ | hsilent | hquiet
  · -- it looks at the task
    obtain ⟨rfl, hk⟩ : c = .read (.task t) ∧ HEq k fun row : Option Task =>
        (orDoesNotExist "Task" row).bind fun task =>
          if task.isDone then (.ret () : Handler Unit)
          else PersistBackend.finishTask t .critical (some PersistBackend.silentMessage) := by
      cases hrest
      exact ⟨rfl, HEq.rfl⟩
    cases hk
    show Due S t s' ((orDoesNotExist "Task" (s.world.db.tasks.get t)).bind _)
    cases hg : s.world.db.tasks.get t with
    | none => exact .inr (.inr trivial)
    | some task =>
      show Due S t s' (if task.isDone then _ else _)
      cases hd : task.isDone with
      | true => exact .inr (.inr trivial)
      | false =>
        exact .inr (.inl ((hsilent (isOpen_iff.mpr ⟨task, hg, hd⟩)).later hs.clock hs.recorded
          hs.confirmed))
  · exact .inr (.inl (hsilent.later hs.clock hs.recorded hs.confirmed))
  · exact .inr (.inr (hquiet.2 _))

/-- The thread itself, after a mild statement. -/
theorem Sound.step {k : Statements.Ans c → Handler Unit} {kind : Option TaskEventKind}
    (h : Sound S t s th) (hrest : th.rest = .stmt c k) (hact : th.act.isProgress = false)
    (hs : th.act.isAction = true → Calmer t s s') :
    Sound S t s' (th.step kind (k (exec S i c s.world).1)) := by
  have hover : th.ended = false := by
    cases hover : th.ended with
    | false => rfl
    | true =>
      have hend := h.ended hover
      rw [hrest] at hend
      cases hend
  refine ⟨fun ho => ?_, fun hp => ?_, fun ha => ?_, fun _ => ?_⟩
  · have ho' : th.ended = true := ho
    rw [hover] at ho'
    cases ho'
  · have hp' : th.act.isProgress = true := hp
    rw [hact] at hp'
    cases hp'
  · obtain ⟨hacting, hdue⟩ := h.action ha
    rw [hrest] at hacting hdue
    exact ⟨hacting.2 _, fun _ => (hdue hover).step (hs ha)⟩
  · have hmild := h.mild hact
    rw [hrest] at hmild
    exact hmild.2 _

/-- Where no action is under way, nothing is asked of the others. -/
theorem Sound.quiet (h : Sound S t s th) (hquiet : th.act.isAction = true → th.ended = true) :
    Sound S t s' th where
  ended := h.ended
  progress := h.progress
  action ha := ⟨(h.action ha).1, fun ho => by rw [hquiet ha] at ho; cases ho⟩
  mild := h.mild

theorem over_of_quiet (h : ¬ UnderWay s) (hth : th ∈ s.threads) (ha : th.act.isAction = true) :
    th.ended = true := by
  cases hover : th.ended with
  | true => rfl
  | false => exact absurd ⟨th, hth, ha, hover⟩ h

/-- What is under way after a thread went on was under way before. -/
theorem under_modify {f : Thread → Thread} {th' : Thread}
    (hf : ∀ th, (f th).act = th.act ∧ ((f th).ended = false → th.ended = false))
    (hth : th' ∈ s.threads.modify n f) (hover : th'.ended = false) :
    ∃ th₀ ∈ s.threads, th₀.act = th'.act ∧ th₀.ended = false := by
  rcases mem_modify hth with ⟨th₀, hn, rfl⟩ | hold
  · exact ⟨th₀, List.mem_of_getElem? hn, (hf th₀).1.symm, (hf th₀).2 hover⟩
  · exact ⟨th', hold, rfl, hover⟩

theorem step_same {kind : Option TaskEventKind} (th : Thread) :
    (th.step kind rest).act = th.act ∧ ((th.step kind rest).ended = false → th.ended = false) :=
  ⟨rfl, id⟩

/-- A statement of an action, or of a report that is no Progress. -/
theorem Inv.issue (h : Inv S t s) {k : Statements.Ans c → Handler Unit}
    (hn : s.threads[n]? = some th) (hrest : th.rest = .stmt c k)
    (hact : th.act.isProgress = false) (hclock : s.clock ≤ i.now)
    (hlone : recordedKind t s.world c = some .paused → LonePaused t s) :
    Inv S t (s.issue S t n i c (k (exec S i c s.world).1)) := by
  have hth : th ∈ s.threads := List.mem_of_getElem? hn
  have hsound := h.sound th hth
  have hmild : Mild c := by
    have hissues := hsound.mild hact
    rw [hrest] at hissues
    exact hissues.1
  generalize hleft : k (exec S i c s.world).1 = left
  have hself : ∀ {s' : State}, (th.act.isAction = true → Calmer t s s') →
      Sound S t s' (th.step (recordedKind t s.world c) left) := by
    intro s' hs
    rw [← hleft]
    exact hsound.step hrest hact hs
  have harming : ∀ server, Arming (s.issue S t n i c left) server → Arming s server :=
    fun server => arming_modify hn rfl fun ha => by rwa [arms_step hact] at ha
  by_cases hpaused : recordedKind t s.world c = some .paused
  swap
  · have hs : Unarming t s (s.issue S t n i c left) :=
      unarming_issue hn (unarmed_mild hmild) (not_create_mild hmild) (recordedKind_mild hmild)
        hpaused hclock (fun server ha => by rwa [arms_step hact] at ha)
        (fun _ server ha => by rwa [arms_step hact])
    refine h.calmer hs (forall_modify hn (hself fun _ => hs.toCalmer) fun th' hold => ?_)
      fun th' hth' _ hover => .inl (under_modify step_same hth' hover)
    exact (h.sound th' hold).later hs.toCalmer
  · -- a pause is recorded: there is no timer, and none is on its way
    obtain ⟨hquiet, hnone, hsettled⟩ := hlone hpaused
    have hopened : isOpen t (s.issue S t n i c left).world → isOpen t s.world :=
      isOpen_exec (not_create_mild hmild)
    refine ⟨fun since hs => ?_, h.lost, fun ho server _ due hd => ?_, fun ho _ _ server ha => ?_,
      forall_modify hn (hself fun ha => ?_) fun th' hold => ?_, fun th' hth' ha hover => ?_⟩
    · have hsame : (s.issue S t n i c left).recorded = s.recorded :=
        if_neg (recordedKind_mild hmild)
      rw [hsame] at hs
      exact (h.begun since hs).trans hclock
    · have hold := fewer_exec (S := S) (i := i) (w := s.world) (unarmed_mild hmild) server due hd
      rw [hnone (hopened ho) server] at hold
      cases hold
    · exact hsettled (hopened ho) server (harming server ha)
    · have hend := hsound.ended (over_of_quiet hquiet hth ha)
      rw [hrest] at hend
      cases hend
    · exact (h.sound th' hold).quiet fun ha => over_of_quiet hquiet hold ha
    · obtain ⟨th₀, hth₀, hact₀, hover₀⟩ := under_modify step_same hth' hover
      exact absurd ⟨th₀, hth₀, by rw [hact₀]; exact ha, hover₀⟩ hquiet

end Silence
end Rekuest
