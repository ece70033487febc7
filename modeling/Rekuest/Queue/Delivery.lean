import Mathlib.Data.List.Perm.Subperm
import Rekuest.Queue.Order

/-!
# Rekuest.Queue.Delivery

Any connections drain the queue of an agent, one after the other or at once, and each may be cut
anywhere.

* `Loses`: a connection is cut between its pop and its send.
* `Accounts`: every frame pushed is in the queue, sent, in the hands of a connection, or lost.
* `at_least_once_iff`: nothing is missing just when nobody was cut there. The processing list is
  never read again.
-/

namespace Rekuest
namespace AgentQueue

/-- The event cuts a connection that has popped a frame of the agent and not handed it to its
send. -/
def Loses (s : State) (a : AgentId) : Event → Prop
  | .cut c => ∃ p ∈ s.listening c, p.1 = a ∧ p.2.unsent.isSome
  | _ => False

instance (s : State) (a : AgentId) : (e : Event) → Decidable (Loses s a e)
  | .cut c => inferInstanceAs (Decidable (∃ p ∈ s.listening c, p.1 = a ∧ p.2.unsent.isSome))
  | .push .. => isFalse id
  | .listen .. => isFalse id
  | .run _ => isFalse id

/-- No event of the run loses a frame of the agent. -/
def Unbroken (a : AgentId) : State → List Event → Prop
  | _, [] => True
  | s, e :: events => ¬ Loses s a e ∧ ∀ s' ∈ step s e, Unbroken a s' events

instance (a : AgentId) : (s : State) → (events : List Event) → Decidable (Unbroken a s events)
  | _, [] => isTrue trivial
  | s, e :: events =>
    have : Decidable (∀ s' ∈ step s e, Unbroken a s' events) :=
      match step s e with
      | none => isTrue nofun
      | some s' =>
        have := instDecidableUnbroken a s' events
        decidable_of_iff (Unbroken a s' events) (by simp)
    inferInstanceAs (Decidable (_ ∧ _))

/-- No connection of the agent is between its pop and its send. -/
def AtRest (s : State) (a : AgentId) : Prop := ∀ c m, s.listening c ≠ some (a, .sending m)

/-- Every frame pushed, as often as it was pushed, is in the list that a pop reads from or was
handed to a send. -/
def AtLeastOnce (s : State) (a : AgentId) : Prop :=
  (s.pushedTo a).Subperm (s.redis (.queue a) ++ s.sentTo a)

/-- What has become of every frame pushed to the agent. -/
structure Accounts (s : State) (a : AgentId) (hands : List (ConnectionId × Frame))
    (lost : List Frame) : Prop where
  nodup : hands.Nodup
  held : ∀ c m, (c, m) ∈ hands ↔ s.listening c = some (a, .sending m)
  pushed : (s.pushedTo a).Perm
    (s.redis (.queue a) ++ s.sentTo a ++ hands.map (·.2) ++ lost)

variable {a b : AgentId} {c : ConnectionId} {s s' : State} {e : Event} {events : List Event}
  {hands : List (ConnectionId × Frame)} {lost : List Frame} {m : Frame}

theorem accounts_empty : Accounts .empty a [] [] where
  nodup := .nil
  held c m := by simp [State.empty]
  pushed := .nil

/-- Nothing is missing just when nothing is in anyone's hands and nothing is lost. -/
theorem Accounts.atLeastOnce_iff (h : Accounts s a hands lost) :
    AtLeastOnce s a ↔ hands = [] ∧ lost = [] := by
  have hlength := h.pushed.length_eq
  constructor
  · intro hsub
    have hle := hsub.length_le
    simp only [List.length_append, List.length_map] at hlength hle
    exact ⟨List.eq_nil_of_length_eq_zero (by omega), List.eq_nil_of_length_eq_zero (by omega)⟩
  · rintro ⟨rfl, rfl⟩
    have hperm := h.pushed
    simp only [List.map_nil, List.append_nil] at hperm
    exact hperm.subperm

theorem Accounts.atRest_iff (h : Accounts s a hands lost) : AtRest s a ↔ hands = [] := by
  constructor
  · intro hrest
    refine List.eq_nil_iff_forall_not_mem.mpr fun p hp => ?_
    exact hrest p.1 p.2 ((h.held p.1 p.2).mp hp)
  · rintro rfl c m hc
    cases (h.held c m).mpr hc

/-- A connection moves that holds no unsent frame of the agent, before and after. -/
theorem Accounts.setPhase (h : Accounts s a hands lost) {p : Option (AgentId × Phase)}
    (hfrom : ∀ m, s.listening c ≠ some (a, .sending m)) (hto : ∀ m, p ≠ some (a, .sending m)) :
    Accounts (s.setPhase c p) a hands lost where
  nodup := h.nodup
  held d m := by
    rw [h.held]
    by_cases hd : d = c
    · subst hd
      rw [setPhase_self]
      exact iff_of_false (hfrom m) (hto m)
    · rw [setPhase_of_ne hd]
  pushed := h.pushed

/-- A step that leaves the connections, the logs and the queue of the agent alone. -/
theorem Accounts.of_aside (h : Accounts s a hands lost)
    (listening : s'.listening = s.listening)
    (pushed : s'.pushedTo a = s.pushedTo a) (sent : s'.sentTo a = s.sentTo a)
    (queue : s'.redis (.queue a) = s.redis (.queue a)) : Accounts s' a hands lost where
  nodup := h.nodup
  held c m := by rw [listening, h.held]
  pushed := by rw [pushed, sent, queue]; exact h.pushed

/-- The connection hands over what it holds, or loses it. -/
theorem Accounts.release (h : Accounts s a hands lost) {p : Option (AgentId × Phase)}
    (hfrom : s.listening c = some (a, .sending m)) (hto : ∀ m, p ≠ some (a, .sending m)) :
    (hands.erase (c, m)).Nodup ∧
      (∀ d m', (d, m') ∈ hands.erase (c, m) ↔
        (s.setPhase c p).listening d = some (a, .sending m')) ∧
      (hands.map (·.2)).Perm (m :: (hands.erase (c, m)).map (·.2)) := by
  refine ⟨h.nodup.erase _, fun d m' => ?_, ?_⟩
  · rw [h.nodup.mem_erase_iff, h.held]
    by_cases hd : d = c
    · subst hd
      rw [setPhase_self, hfrom]
      refine iff_of_false ?_ (hto m')
      rintro ⟨hne, heq⟩
      cases heq
      exact hne rfl
    · rw [setPhase_of_ne hd]
      exact and_iff_right fun heq => hd (congrArg Prod.fst heq)
  · exact (List.perm_cons_erase ((h.held c m).mpr hfrom)).map (·.2)

theorem Accounts.push (h : Accounts s a hands lost) (b : AgentId) (m : Frame) :
    Accounts { s with redis := push s.redis b m, pushed := s.pushed ++ [(b, m)] } a hands lost where
  nodup := h.nodup
  held := h.held
  pushed := by
    rw [pushedTo_append (s := s) rfl]
    show List.Perm _ (AgentQueue.push s.redis b m (.queue a) ++ s.sentTo a ++ _ ++ _)
    by_cases hb : b = a
    · subst hb
      rw [push_queue]
      simpa using (List.perm_append_singleton m _).trans (h.pushed.cons m)
    · rw [push_queue_of_ne (Ne.symm hb)]
      simpa [hb] using h.pushed

/-- A step of a connection loses nothing. -/
theorem Accounts.run (h : Accounts s a hands lost) (hs : Ran c s s') :
    ∃ hands', Accounts s' a hands' lost := by
  cases hs with
  | pop agent m redis at_pop took =>
    obtain ⟨hqueue, _, hrest⟩ := pop_eq_some took
    by_cases hagent : agent = a
    · subst hagent
      have hfree : (c, m) ∉ hands := fun hm => by
        rw [h.held, at_pop] at hm
        cases hm
      refine ⟨(c, m) :: hands, h.nodup.cons hfree, fun d m' => ?_, ?_⟩
      · rw [List.mem_cons, h.held]
        by_cases hd : d = c
        · subst hd
          rw [setPhase_self, at_pop]
          simp [eq_comm]
        · rw [setPhase_of_ne hd]
          simp [hd]
      · have hperm := h.pushed
        rw [hqueue] at hperm
        show (s.pushedTo agent).Perm (redis (.queue agent) ++ s.sentTo agent ++ _ ++ lost)
        refine hperm.trans (List.perm_iff_count.mpr fun x => ?_)
        simp only [List.map_cons, List.count_append, List.count_cons, List.count_nil]
        omega
    · have haside : Accounts { s with redis := redis } a hands lost :=
        h.of_aside rfl rfl rfl (hrest a (Ne.symm hagent)).1
      refine ⟨hands, haside.setPhase (fun m' hm => ?_) (fun m' hm => ?_)⟩
      · cases at_pop.symm.trans hm
      · cases hm
        exact hagent rfl
  | send agent m at_send =>
    by_cases hagent : agent = a
    · subst hagent
      obtain ⟨hnodup, hheld, hperm⟩ := h.release (p := some (agent, .acking m)) at_send nofun
      refine ⟨hands.erase (c, m), hnodup, hheld, ?_⟩
      show (s.pushedTo agent).Perm (s.redis (.queue agent) ++
        ({ s with sent := s.sent ++ [(agent, m)] } : State).sentTo agent ++ _ ++ lost)
      rw [sentTo_append (s := s) (l := [(agent, m)]) rfl]
      refine h.pushed.trans (List.perm_iff_count.mpr fun x => ?_)
      have hcount := hperm.count_eq x
      simp only [List.count_append, hcount, List.count_cons, List.count_nil, decide_true,
        List.filter_cons_of_pos, List.filter_nil, List.map_cons, List.map_nil]
      omega
    · have haside : Accounts { s with sent := s.sent ++ [(agent, m)] } a hands lost :=
        h.of_aside rfl rfl ((sentTo_append rfl).trans (by simp [hagent])) rfl
      refine ⟨hands, haside.setPhase (fun m' hm => ?_) (fun m' hm => ?_)⟩
      · cases at_send.symm.trans hm
        exact hagent rfl
      · cases hm
  | ack agent m at_ack =>
    have hqueue : ack s.redis agent m (.queue a) = s.redis (.queue a) := ack_queue
    have haside : Accounts { s with redis := ack s.redis agent m } a hands lost :=
      h.of_aside rfl rfl rfl hqueue
    refine ⟨hands, haside.setPhase (fun m' hm => ?_) (fun m' hm => ?_)⟩
    · cases at_ack.symm.trans hm
    · cases hm

theorem Accounts.cut (h : Accounts s a hands lost) (c : ConnectionId) :
    ∃ hands' lost', Accounts (s.setPhase c none) a hands' lost' ∧
      (lost' = [] ↔ lost = [] ∧ ¬ Loses s a (.cut c)) := by
  by_cases hc : ∃ m, s.listening c = some (a, .sending m)
  · obtain ⟨m, hm⟩ := hc
    obtain ⟨hnodup, hheld, hperm⟩ := h.release (p := none) hm nofun
    refine ⟨hands.erase (c, m), m :: lost, ⟨hnodup, hheld, ?_⟩, iff_of_false nofun fun hno => ?_⟩
    · show (s.pushedTo a).Perm (s.redis (.queue a) ++ s.sentTo a ++ _ ++ (m :: lost))
      refine h.pushed.trans (List.perm_iff_count.mpr fun x => ?_)
      have hcount := hperm.count_eq x
      simp only [List.count_append, hcount, List.count_cons]
      omega
    · exact hno.2 ⟨(a, .sending m), hm, rfl, rfl⟩
  · have hfrom : ∀ m, s.listening c ≠ some (a, .sending m) := fun m hm => hc ⟨m, hm⟩
    refine ⟨hands, lost, h.setPhase hfrom nofun, (and_iff_left ?_).symm⟩
    rintro ⟨⟨b, phase⟩, hp, rfl, hunsent⟩
    cases phase with
    | sending m => exact hfrom m hp
    | popping => cases hunsent
    | acking m => cases hunsent

theorem Accounts.step (h : Accounts s a hands lost) (hs : step s e = some s') :
    ∃ hands' lost', Accounts s' a hands' lost' ∧ (lost' = [] ↔ lost = [] ∧ ¬ Loses s a e) := by
  cases e with
  | push b m =>
    cases hs
    exact ⟨hands, lost, h.push b m, (and_iff_left id).symm⟩
  | listen c b =>
    obtain ⟨hfree, hs⟩ := Option.ite_none_right_eq_some.mp hs
    cases hs
    refine ⟨hands, lost, h.setPhase (fun m hm => ?_) (fun m hm => ?_), (and_iff_left id).symm⟩
    · rw [hm] at hfree
      cases hfree
    · cases hm
  | run c =>
    obtain ⟨hands', h'⟩ := h.run (ran_of_run hs)
    exact ⟨hands', lost, h', (and_iff_left id).symm⟩
  | cut c =>
    cases hs
    exact h.cut c

theorem Accounts.runs (h : Accounts s a hands lost) (hs : runs s events = some s') :
    ∃ hands' lost', Accounts s' a hands' lost' ∧
      (lost' = [] ↔ lost = [] ∧ Unbroken a s events) := by
  induction events generalizing s hands lost with
  | nil =>
    cases hs
    exact ⟨hands, lost, h, (and_iff_left trivial).symm⟩
  | cons e events ih =>
    obtain ⟨s₁, hstep, hrest⟩ := runs_cons hs
    obtain ⟨hands₁, lost₁, h₁, hlost₁⟩ := h.step hstep
    obtain ⟨hands', lost', h', hlost'⟩ := ih h₁ hrest
    refine ⟨hands', lost', h', hlost'.trans ?_⟩
    have hunbroken : Unbroken a s (e :: events) ↔ ¬ Loses s a e ∧ Unbroken a s₁ events :=
      and_congr_right' (by simp [hstep])
    rw [hlost₁, hunbroken, and_assoc]

/-- Where no two of the frames are equal, it is enough to look for each of them. -/
theorem atLeastOnce_iff_mem (h : (s.pushedTo a).Nodup) :
    AtLeastOnce s a ↔ ∀ m ∈ s.pushedTo a, m ∈ s.redis (.queue a) ∨ m ∈ s.sentTo a := by
  constructor
  · intro hsub m hm
    exact List.mem_append.mp (hsub.subset hm)
  · intro hmem
    exact List.subperm_of_subset h fun m hm => List.mem_append.mpr (hmem m hm)

/-- Of every frame pushed in a run, each copy is in the queue or was handed to a send just when no
connection of the agent was ever cut between its pop and its send, and none is between the two at
the moment. -/
theorem at_least_once_iff (a : AgentId) (events : List Event) (s : State)
    (hs : runs .empty events = some s) :
    (AtLeastOnce s a ↔ Unbroken a .empty events ∧ AtRest s a) ∧
    ((s.pushedTo a).Nodup →
      ((∀ m ∈ s.pushedTo a, m ∈ s.redis (.queue a) ∨ m ∈ s.sentTo a) ↔
        Unbroken a .empty events ∧ AtRest s a)) := by
  obtain ⟨hands, lost, h, hlost⟩ := accounts_empty.runs hs
  have hiff : AtLeastOnce s a ↔ Unbroken a .empty events ∧ AtRest s a := by
    rw [h.atLeastOnce_iff, h.atRest_iff, and_comm, hlost]
    simp
  exact ⟨hiff, fun hnodup => (atLeastOnce_iff_mem hnodup).symm.trans hiff⟩

/-- A connection is cut after it has handed a frame over, and the next one goes on. -/
def handover : List Event :=
  [.push 1 assignFrame, .listen 1 1, .run 1, .run 1, .cut 1, .push 1 cancelFrame, .listen 2 1]

theorem at_least_once_iff_handover :
    ∃ s, runs .empty handover = some s ∧ AtLeastOnce s 1 := by
  refine ⟨_, rfl, (at_least_once_iff 1 handover _ rfl).1.mpr ⟨by decide, fun c m hc => ?_⟩⟩
  by_cases h₂ : c = 2
  · subst h₂
    cases hc
  · by_cases h₁ : c = 1
    · subst h₁
      cases hc
    · simp [State.setPhase, State.empty, h₁, h₂] at hc

/-- A connection is cut before the send. The next one delivers what is pushed then, and nothing
else: the first frame stays in the processing list. -/
def stranded : List Event :=
  [.push 1 assignFrame, .listen 1 1, .run 1, .cut 1, .listen 2 1, .push 1 cancelFrame, .run 2,
    .run 2]

theorem cut_before_send_loses :
    ∃ s, runs .empty stranded = some s ∧ AtRest s 1 ∧ s.pushedTo 1 = [assignFrame, cancelFrame] ∧
      s.redis (.queue 1) = [] ∧ s.sentTo 1 = [cancelFrame] ∧
      assignFrame ∈ s.redis (.processing 1) := by
  refine ⟨_, rfl, fun c m hc => ?_, rfl, rfl, rfl, by decide⟩
  by_cases h₂ : c = 2
  · subst h₂
    cases hc
  · by_cases h₁ : c = 1
    · subst h₁
      cases hc
    · simp [State.setPhase, State.empty, h₁, h₂] at hc

end AgentQueue
end Rekuest
