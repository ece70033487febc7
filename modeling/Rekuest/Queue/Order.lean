import Rekuest.AgentQueue

/-!
# Rekuest.Queue.Order

One connection drains the queue of an agent and is never cut.

* `Single`: the events of such a run.
* `Draining`: the invariant, by the phase of the connection.
* `fifo_exactly_once`: what is sent is a prefix of what was pushed; the held frame and the queue,
  oldest first, are the rest.
-/

namespace Rekuest
namespace AgentQueue

/-- The frame that the connection has popped and not handed to its send. -/
def Phase.unsent : Phase → Option Frame
  | sending m => some m
  | _ => none

/-- The frame that the connection has popped and not acknowledged. -/
def Phase.held : Phase → Option Frame
  | popping => none
  | sending m => some m
  | acking m => some m

/-- Of the frames sent so far, those that are acknowledged. -/
def Phase.acked (sent : List Frame) : Phase → List Frame
  | acking _ => sent.dropLast
  | _ => sent

/-- The lists hold anything, the queue of the agent what was pushed before, and the connection has
come to its first pop. -/
def opened (r : Redis) (a : AgentId) (c : ConnectionId) : State where
  redis := r
  listening := fun d => if d = c then some (a, .popping) else none
  pushed := (r (.queue a)).reverse.map fun m => (a, m)
  sent := []

/-- The connection is not cut, and no other one listens to the agent. -/
def Single (a : AgentId) (c : ConnectionId) : Event → Prop
  | .cut d => d ≠ c
  | .listen _ b => b ≠ a
  | _ => True

instance (a : AgentId) (c : ConnectionId) : (e : Event) → Decidable (Single a c e)
  | .cut d => inferInstanceAs (Decidable (d ≠ c))
  | .listen _ b => inferInstanceAs (Decidable (b ≠ a))
  | .push .. => isTrue trivial
  | .run _ => isTrue trivial

/-- The lists and the logs while connection `c` is in the phase. -/
structure Draining (r : Redis) (a : AgentId) (c : ConnectionId) (phase : Phase) (s : State) :
    Prop where
  here : s.listening c = some (a, phase)
  alone : ∀ d b p, d ≠ c → s.listening d = some (b, p) → b ≠ a
  pushed : s.pushedTo a = s.sentTo a ++ phase.unsent.toList ++ (s.redis (.queue a)).reverse
  last : ∀ m, phase = .acking m → (s.sentTo a).getLast? = some m
  processing : s.redis (.processing a) = phase.held.toList ++
    (r (.processing a)).filter (· ∉ phase.acked (s.sentTo a))

variable {r : Redis} {a : AgentId} {c d : ConnectionId} {phase : Phase} {s s' : State} {e : Event}

theorem draining_opened : Draining r a c .popping (opened r a c) where
  here := if_pos rfl
  alone d b p hd h := by
    rw [show (opened r a c).listening d = none from if_neg hd] at h
    cases h
  pushed := by
    simp [opened, State.pushedTo, State.sentTo, Phase.unsent, List.filter_map, Function.comp_def]
  last m h := by cases h
  processing := by simp [opened, State.sentTo, Phase.held, Phase.acked]

/-- A step of the connection itself. -/
theorem Draining.run (h : Draining r a c phase s) (hs : Ran c s s') :
    ∃ phase', Draining r a c phase' s' := by
  cases hs with
  | pop agent m redis at_pop took =>
    obtain ⟨rfl, rfl⟩ : a = agent ∧ phase = .popping := by
      simpa using h.here.symm.trans at_pop
    obtain ⟨hqueue, hprocessing, _⟩ := pop_eq_some took
    refine ⟨.sending m, setPhase_self, fun d b p hd hl => ?_, ?_, nofun, ?_⟩
    · rw [setPhase_of_ne hd] at hl
      exact h.alone d b p hd hl
    · have hp := h.pushed
      rw [hqueue] at hp
      show s.pushedTo a = s.sentTo a ++ [m] ++ (redis (.queue a)).reverse
      simpa [Phase.unsent] using hp
    · have hp := h.processing
      simp only [Phase.held, Phase.acked] at hp ⊢
      exact hprocessing.trans (congrArg (m :: ·) hp)
  | send agent m at_send =>
    obtain ⟨rfl, rfl⟩ : a = agent ∧ phase = .sending m := by
      simpa using h.here.symm.trans at_send
    have hsent : ({ s with sent := s.sent ++ [(a, m)] } : State).sentTo a = s.sentTo a ++ [m] := by
      rw [sentTo_append (s := s) (l := [(a, m)]) rfl]
      simp
    refine ⟨.acking m, setPhase_self, fun d b p hd hl => ?_, ?_, ?_, ?_⟩
    · rw [setPhase_of_ne hd] at hl
      exact h.alone d b p hd hl
    · show s.pushedTo a = ({ s with sent := s.sent ++ [(a, m)] } : State).sentTo a ++ _ ++ _
      rw [hsent, h.pushed]
      simp [Phase.unsent, State.setPhase]
    · rintro m' hm
      cases hm
      show (({ s with sent := s.sent ++ [(a, m)] } : State).sentTo a).getLast? = _
      rw [hsent, List.getLast?_append]
      rfl
    · show s.redis (.processing a) = _ ++ (r (.processing a)).filter
        (· ∉ Phase.acked (({ s with sent := s.sent ++ [(a, m)] } : State).sentTo a) (.acking m))
      rw [hsent, h.processing, show Phase.acked (s.sentTo a ++ [m]) (.acking m) = s.sentTo a from
        List.dropLast_concat]
      rfl
  | ack agent m at_ack =>
    obtain ⟨rfl, rfl⟩ : a = agent ∧ phase = .acking m := by
      simpa using h.here.symm.trans at_ack
    refine ⟨.popping, setPhase_self, fun d b p hd hl => ?_, ?_, nofun, ?_⟩
    · rw [setPhase_of_ne hd] at hl
      exact h.alone d b p hd hl
    · show s.pushedTo a = s.sentTo a ++ _ ++ (ack s.redis a m (.queue a)).reverse
      rw [ack_queue, h.pushed]
      rfl
    · show ack s.redis a m (.processing a) = _
      rw [ack_processing, h.processing]
      have hlast := List.dropLast_append_getLast? m (h.last m rfl)
      show _ = _ ++ (r (.processing a)).filter (· ∉ s.sentTo a)
      rw [← hlast]
      simp only [Phase.held, Phase.acked, Option.toList_some, Option.toList_none, List.nil_append,
        List.cons_append, List.filter_cons, List.filter_filter, List.mem_append,
        List.mem_singleton, not_or, ne_eq, not_true_eq_false, decide_false, Bool.false_eq_true,
        if_false, List.dropLast_concat]
      refine List.filter_congr fun x _ => ?_
      rw [Bool.decide_and, Bool.and_comm]

/-- A step that leaves the connections, the logs and the lists of the agent alone. -/
theorem Draining.of_aside (h : Draining r a c phase s)
    (listening : s'.listening = s.listening)
    (pushed : s'.pushedTo a = s.pushedTo a) (sent : s'.sentTo a = s.sentTo a)
    (queue : s'.redis (.queue a) = s.redis (.queue a))
    (processing : s'.redis (.processing a) = s.redis (.processing a)) :
    Draining r a c phase s' where
  here := (congrFun listening c).trans h.here
  alone d b p hd hl := h.alone d b p hd ((congrFun listening d).symm.trans hl)
  pushed := by rw [pushed, sent, queue, h.pushed]
  last m hm := by rw [sent, h.last m hm]
  processing := by rw [processing, sent, h.processing]

/-- Another connection moves, and not to the agent. -/
theorem Draining.setPhase (h : Draining r a c phase s) (hd : d ≠ c)
    {p : Option (AgentId × Phase)} (hp : ∀ b q, p = some (b, q) → b ≠ a) :
    Draining r a c phase (s.setPhase d p) where
  here := (setPhase_of_ne (Ne.symm hd)).trans h.here
  alone d' b q hd' hl := by
    by_cases heq : d' = d
    · subst heq
      exact hp b q (setPhase_self.symm.trans hl)
    · exact h.alone d' b q hd' ((setPhase_of_ne heq).symm.trans hl)
  pushed := h.pushed
  last := h.last
  processing := h.processing

/-- A step of a connection that listens to another agent. -/
theorem Draining.run_other (h : Draining r a c phase s) (hd : d ≠ c) (hs : Ran d s s') :
    Draining r a c phase s' := by
  cases hs with
  | pop agent m redis at_pop took =>
    have hagent : agent ≠ a := h.alone d agent _ hd at_pop
    obtain ⟨_, _, hrest⟩ := pop_eq_some took
    obtain ⟨hqueue, hprocessing⟩ := hrest a (Ne.symm hagent)
    have haside : Draining r a c phase { s with redis := redis } :=
      h.of_aside rfl rfl rfl hqueue hprocessing
    refine haside.setPhase hd ?_
    rintro b q ⟨⟩
    exact hagent
  | send agent m at_send =>
    have hagent : agent ≠ a := h.alone d agent _ hd at_send
    have haside : Draining r a c phase { s with sent := s.sent ++ [(agent, m)] } :=
      h.of_aside rfl rfl ((sentTo_append rfl).trans (by simp [hagent])) rfl rfl
    refine haside.setPhase hd ?_
    rintro b q ⟨⟩
    exact hagent
  | ack agent m at_ack =>
    have hagent : agent ≠ a := h.alone d agent _ hd at_ack
    have hqueue : ack s.redis agent m (.queue a) = s.redis (.queue a) := ack_queue
    have haside : Draining r a c phase { s with redis := ack s.redis agent m } :=
      h.of_aside rfl rfl rfl hqueue (ack_processing_of_ne (Ne.symm hagent))
    refine haside.setPhase hd ?_
    rintro b q ⟨⟩
    exact hagent

theorem Draining.push (h : Draining r a c phase s) (b : AgentId) (m : Frame) :
    Draining r a c phase
      { s with redis := push s.redis b m, pushed := s.pushed ++ [(b, m)] } := by
  have hprocessing : AgentQueue.push s.redis b m (.processing a) = s.redis (.processing a) :=
    push_processing
  by_cases hb : b = a
  · subst hb
    refine ⟨h.here, h.alone, ?_, h.last, hprocessing.trans h.processing⟩
    show _ = s.sentTo b ++ _ ++ (AgentQueue.push s.redis b m (.queue b)).reverse
    rw [pushedTo_append (s := s) (l := [(b, m)]) rfl, h.pushed, push_queue]
    simp
  · exact h.of_aside rfl ((pushedTo_append rfl).trans (by simp [hb])) rfl
      (push_queue_of_ne (Ne.symm hb)) hprocessing

theorem Draining.step (h : Draining r a c phase s) (he : Single a c e)
    (hs : step s e = some s') : ∃ phase', Draining r a c phase' s' := by
  cases e with
  | push b m =>
    cases hs
    exact ⟨phase, h.push b m⟩
  | listen d b =>
    obtain ⟨hfree, hs⟩ := Option.ite_none_right_eq_some.mp hs
    cases hs
    have hd : d ≠ c := by
      rintro rfl
      rw [h.here] at hfree
      cases hfree
    refine ⟨phase, h.setPhase hd ?_⟩
    rintro b' q ⟨⟩
    exact he
  | run d =>
    by_cases hd : d = c
    · subst hd
      exact h.run (ran_of_run hs)
    · exact ⟨phase, h.run_other hd (ran_of_run hs)⟩
  | cut d =>
    cases hs
    exact ⟨phase, h.setPhase he nofun⟩

theorem Draining.runs {events : List Event} (h : Draining r a c phase s)
    (he : ∀ e ∈ events, Single a c e) (hs : runs s events = some s') :
    ∃ phase', Draining r a c phase' s' := by
  induction events generalizing s phase with
  | nil =>
    cases hs
    exact ⟨phase, h⟩
  | cons e events ih =>
    obtain ⟨s₁, hstep, hrest⟩ := runs_cons hs
    obtain ⟨phase₁, h₁⟩ := h.step (he e (List.mem_cons_self ..)) hstep
    exact ih h₁ (fun e' he' => he e' (List.mem_cons_of_mem e he')) hrest

/-- While a single connection drains the queue of an agent and is not cut, what it sends is a prefix
of what was pushed; the rest is at most one frame in its hands and then the queue, oldest first. The
processing list holds that frame until it is acknowledged, and of what it held before, what no
acknowledged frame equals. -/
theorem fifo_exactly_once (r : Redis) (a : AgentId) (c : ConnectionId) (events : List Event)
    (s : State) (hs : runs (opened r a c) events = some s) (he : ∀ e ∈ events, Single a c e) :
    ∃ phase, s.listening c = some (a, phase) ∧
      s.sentTo a <+: s.pushedTo a ∧
      s.pushedTo a = s.sentTo a ++ phase.unsent.toList ++ (s.redis (.queue a)).reverse ∧
      s.redis (.processing a) = phase.held.toList ++
        (r (.processing a)).filter (· ∉ phase.acked (s.sentTo a)) := by
  obtain ⟨phase, h⟩ := draining_opened.runs he hs
  refine ⟨phase, h.here, ?_, h.pushed, h.processing⟩
  rw [h.pushed, List.append_assoc]
  exact List.prefix_append ..

def assignFrame : Frame := ⟨"ASSIGN 1", by decide⟩

def cancelFrame : Frame := ⟨"CANCEL 1", by decide⟩

/-- Two frames are pushed while the first one is under way, and the second one is popped. -/
def drainTwo : List Event :=
  [.push 1 assignFrame, .run 1, .push 1 cancelFrame, .run 1, .run 1, .run 1]

theorem drainTwo_ends : (runs (opened (fun _ => []) 1 1) drainTwo).isSome := by decide +kernel

def drained : State := (runs (opened (fun _ => []) 1 1) drainTwo).get drainTwo_ends

theorem fifo_exactly_once_drained :
    drained.sentTo 1 = [assignFrame] ∧
    ∃ phase, drained.listening 1 = some (1, phase) ∧
      drained.pushedTo 1 =
        drained.sentTo 1 ++ phase.unsent.toList ++ (drained.redis (.queue 1)).reverse := by
  obtain ⟨phase, hphase, _, hpushed, _⟩ := fifo_exactly_once (fun _ => []) 1 1 drainTwo drained
    (Option.some_get _).symm (by decide)
  exact ⟨by decide +kernel, phase, hphase, hpushed⟩

end AgentQueue
end Rekuest
