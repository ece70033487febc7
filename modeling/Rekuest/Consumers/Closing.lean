import Rekuest.Consumers.Handshake

/-!
# Rekuest.Consumers.Closing

What a connection still does after it called `close`.

* `Call.acts`: the calls that claim the lease, make the session or are handed to the database.
  `acted`: those that were made.
* `Refused s f`: the connection turns the frame away without any of them.
* `receive_acted_iff`: a frame makes no such call exactly where it is refused.
* `closed_means_closed_iff`: over a whole run, every frame after a close.
-/

namespace Rekuest
namespace AgentProtocol

open Interleave Interleave.Prog

/-! ## Events -/

theorem wp_beat {step : Protocol Unit} (hstep : step.Issues fun c : Call => c.serves = true)
    {s : Connection} : wp Connection.exec anyStep (beat step)
      (fun _ s' => ∃ calls, (∀ c ∈ calls, c.call.serves = true) ∧
        (s.session = none → calls = []) ∧ s' = s.recordAll calls) s := by
  intro i _
  cases hs : s.session with
  | none =>
    simp only [Connection.exec, hs, ret_bind]
    exact ⟨[], by simp, by simp, s.recordAll_nil.symm⟩
  | some session =>
    simp only [Connection.exec, hs, ret_bind]
    exact wp_recordAll serves_writesField hstep fun r calls hcalls => ⟨calls, hcalls, by simp, rfl⟩

theorem ping_issues : RegisteredSession.ping.Issues fun c : Call => c.serves = true :=
  .issue_bind rfl fun _ => sendToAgentMessage_issues.mono isTransport_serves

theorem timedOut_issues : RegisteredSession.timedOut.Issues fun c : Call => c.serves = true :=
  .issue_bind rfl fun _ => closeWith_issues.mono isTransport_serves

section

variable {codec : Codec} {str : Raised → String} {connection : ConnectionId}

/-- A step of the heartbeat loop only records calls, and none without a session. -/
theorem beat_cases {step : Protocol Unit} (hstep : step.Issues fun c : Call => c.serves = true)
    (answers : Nat → Answers) (s : Connection) :
    ∃ calls, (∀ c ∈ calls, c.call.serves = true) ∧ (s.session = none → calls = []) ∧
      ((beat step).run Connection.exec answers s).state = s.recordAll calls :=
  wp_run (wp_beat hstep) meets_any

theorem beat_inv {step : Protocol Unit} (hstep : step.Issues fun c : Call => c.serves = true)
    {answers : Nat → Answers} {s : Connection} (h : Inv s) :
    Inv ((beat step).run Connection.exec answers s).state := by
  obtain ⟨calls, hserves, hnone, heq⟩ := beat_cases hstep answers s
  rw [heq]
  refine h.recordAll hserves fun hr => ?_
  rw [hnone (h.fresh hr).1]
  simp

theorem next_inv {s : Connection} (h : Inv s) (e : Event) :
    Inv (s.next codec str connection e) := by
  cases e with
  | frame f => exact receive_inv h f
  | ping answers => exact beat_inv ping_issues h
  | unanswered answers => exact beat_inv timedOut_issues h

theorem inv_initial : Inv {} :=
  ⟨fun before session m after heq => by simp at heq, List.nil_prefix, fun _ => ⟨rfl, by simp⟩,
    by simp, by simp⟩

theorem afterEvents_append (before after : List Event) :
    afterEvents codec str connection (before ++ after) =
      after.foldl (Connection.next codec str connection) (afterEvents codec str connection before) :=
  List.foldl_append

/-- What every event keeps holds after all of them. -/
theorem afterEvents_induction {I : Connection → Prop} (h0 : I {})
    (hnext : ∀ s e, Inv s → I s → I (s.next codec str connection e)) (events : List Event) :
    Inv (afterEvents codec str connection events) ∧ I (afterEvents codec str connection events) := by
  induction events using List.reverseRecOn with
  | nil => exact ⟨inv_initial, h0⟩
  | append_singleton events e ih =>
    rw [afterEvents_append]
    exact ⟨next_inv ih.1 e, hnext _ e ih.1 ih.2⟩

theorem afterEvents_inv (events : List Event) : Inv (afterEvents codec str connection events) :=
  (afterEvents_induction (I := fun _ => True) trivial (fun _ _ _ _ => trivial) events).1

end

/-! ## Acting -/

/-- The calls that claim the lease, make the session, or are handed to the database. -/
def Call.acts : Call → Bool
  | setSession _ => true
  | collaborator (.authenticator _) => true
  | collaborator (.getOrCreateCallerId _) => true
  | collaborator (.onAgentConnected ..) => true
  | collaborator (.renewAgentLease ..) => true
  | collaborator (.backend _) => true
  | collaborator (.onAgentDisconnected ..) => true
  | _ => false

def Call.isClose : Call → Bool
  | collaborator (.close _) => true
  | _ => false

namespace Connection

/-- What was called of these. -/
def acted (s : Connection) : List Called := s.calls.filter (·.call.acts)

/-- `close` was called. -/
def Closed (s : Connection) : Prop := ∃ c ∈ s.calls, c.call.isClose = true

theorem acted_exec_le (i : Answers) (c : Call) (s : Connection) :
    s.acted.length ≤ (exec i c s).2.acted.length := by
  have happend : ∀ calls : List Called, (exec i c s).2.calls = s.calls ++ calls →
      s.acted.length ≤ (exec i c s).2.acted.length := by
    intro calls h
    simp [acted, h]
  cases c with
  | receivedInitialPayload => exact happend [] (by simp [exec])
  | setReceivedInitialPayload => exact happend [] (by simp [exec])
  | session => exact happend [] (by simp [exec])
  | _ => exact happend _ rfl

end Connection

theorem isTransport_acts {c : Call} (h : c.isTransport = true) : c.acts = false := by
  unfold Call.isTransport at h
  split at h
  · rfl
  · rfl
  · cases h

/-- A program that comes past a call that acts. -/
def Acts {α : Type} (n : Nat) (p : Protocol α) (s : Connection) : Prop :=
  wp Connection.exec anyStep p (fun _ s' => n < s'.acted.length) s

/-- What has acted once has acted for good. -/
theorem acts_of_acted {α : Type} {n : Nat} (p : Protocol α) {s : Connection}
    (h : n < s.acted.length) : Acts n p s := by
  have hstep : ∀ (i : Answers) (c : Call) (s : Connection), n < s.acted.length →
      n < (Connection.exec i c s).2.acted.length :=
    fun i c s hs => Nat.lt_of_lt_of_le hs (Connection.acted_exec_le i c s)
  have hkeeps : Keeps Connection.exec anyStep (fun s => n < s.acted.length) p :=
    .of_steps fun i c s _ => hstep i c s
  exact hkeeps s h

/-- The call of a collaborator that acts, and anything after it. -/
theorem acts_await {α : Type} {n : Nat} {c : Collaborator}
    (hc : (Call.collaborator c).acts = true) {f : c.Result → Protocol α} {s : Connection}
    (hn : n ≤ s.acted.length) : Acts n ((await c).bind f) s := by
  have hlt : ∀ answer, n < (s.record (.collaborator c) answer).acted.length := by
    intro answer
    simp only [Connection.acted, Connection.record, List.filter_append, List.filter_cons, hc,
      List.length_append, if_true, List.filter_nil, List.length_singleton]
    exact Nat.lt_succ_of_le hn
  exact wp_await (fun e => hlt _) fun a => acts_of_acted (f a) (hlt _)

theorem acts_bind {α β : Type} {n : Nat} {p : Protocol α} {f : α → Protocol β} {s : Connection}
    (h : Acts n p s) : Acts n (p.bind f) s := by
  refine wp_bind.mpr (wp_mono ?_ h)
  rintro (e | a) s' hs'
  · exact hs'
  · exact acts_of_acted (f a) hs'

theorem acts_attempt {α : Type} {n : Nat} {p : Protocol α} {s : Connection} (h : Acts n p s) :
    Acts n p.attempt s := wp_attempt.mpr h

theorem acts_exceptException {α : Type} {n : Nat} {p : Protocol α} {handle : Raised → Protocol α}
    {s : Connection} (h : Acts n p s) : Acts n (exceptException p handle) s :=
  acts_bind (acts_attempt h)

/-! ## Frames -/

/-- The message of a frame, where it carries a valid one. -/
def Codec.decode (codec : Codec) : Option String → Option FromAgentMessage
  | none => none
  | some text =>
    match codec.loads text with
    | .error _ => none
    | .ok raw => (codec.validate raw).toOption

/-- The connection turns the frame away: it carries no valid message, a registration where one was
received already, or another message where there is no session. -/
def Refused (codec : Codec) (s : Connection) (f : Frame) : Prop :=
  match codec.decode f.text with
  | none => True
  | some (.register _) => s.receivedInitialPayload = true
  | some _ => s.session = none

theorem acted_exec_of_idle {i : Answers} {c : Call} (h : c.acts = false) (s : Connection) :
    (Connection.exec i c s).2.acted = s.acted := by
  cases c with
  | receivedInitialPayload => rfl
  | setReceivedInitialPayload => rfl
  | session => rfl
  | setSession session => cases h
  | _ => simp [Connection.exec, Connection.acted, Connection.record, h]

/-- A program that comes past no call that acts. -/
def Idle {α : Type} (p : Protocol α) (s : Connection) : Prop :=
  wp Connection.exec anyStep p (fun _ s' => s'.acted = s.acted) s

theorem idle_of_issues {α : Type} {p : Protocol α} (hp : p.Issues fun c : Call => c.acts = false)
    (s : Connection) : Idle p s := by
  have hstep : ∀ (i : Answers) (c : Call) (s' : Connection), c.acts = false →
      s'.acted = s.acted → (Connection.exec i c s').2.acted = s.acted :=
    fun i c s' hc hs' => (acted_exec_of_idle hc s').trans hs'
  exact hp.keeps (fun i c s' hc _ => hstep i c s' hc) s rfl

theorem idle_exceptException {α : Type} {p : Protocol α} {handle : Raised → Protocol α}
    {s : Connection} (h : Idle p s)
    (hhandle : ∀ e, (handle e).Issues fun c : Call => c.acts = false) :
    Idle (exceptException p handle) s := by
  refine wp_exceptException.mpr (wp_mono ?_ h)
  intro r s' hs'
  cases r with
  | ok a => exact hs'
  | error e =>
    refine ⟨fun _ => ?_, fun _ => hs'⟩
    exact wp_mono (fun _ _ h => h.trans hs') (idle_of_issues (hhandle e) s')

theorem closeWith_idle {code : Nat} :
    (closeWith code).Issues fun c : Call => c.acts = false :=
  closeWith_issues.mono fun _ => isTransport_acts

section

variable {codec : Codec} {str : Raised → String} {connection : ConnectionId}

theorem receive_of_decode {text : Option String} {m : FromAgentMessage}
    (h : codec.decode text = some m) :
    receive codec str connection text = exceptException (handleMessage str connection m) fun _ =>
      closeWith Codes.fromAgentMessageDoesNotMatchSchema := by
  cases text with
  | none => cases h
  | some text =>
    simp only [Codec.decode] at h
    cases hloads : codec.loads text with
    | error e => simp [hloads] at h
    | ok raw =>
      cases hvalid : codec.validate raw with
      | error e => simp [hloads, hvalid, Except.toOption] at h
      | ok m' =>
        simp only [hloads, hvalid, Except.toOption, Option.some.injEq] at h
        subst h
        simp only [receive, hloads, hvalid]

/-- A frame without a message reaches no further than the transport. -/
theorem receive_of_decode_none {text : Option String} (h : codec.decode text = none) :
    (receive codec str connection text).Issues fun c : Call => c.isTransport = true := by
  cases text with
  | none => exact closeWith_issues
  | some text =>
    cases hloads : codec.loads text with
    | error e =>
      cases e with
      | jsonDecodeError =>
        simp only [receive, hloads]
        exact closeWith_issues
      | other e =>
        simp only [receive, hloads]
        trivial
    | ok raw =>
      cases hvalid : codec.validate raw with
      | error e =>
        simp only [receive, hloads, hvalid]
        exact .bind sendToAgentMessage_issues fun _ => closeWith_issues
      | ok m => simp [Codec.decode, hloads, hvalid, Except.toOption] at h

/-- A second registration gets no further than the router. -/
theorem dispatch_register_idle {session : RegisteredSession} {register : Register} :
    (session.dispatch str (.register register)).Issues fun c : Call => c.acts = false :=
  .issue_bind rfl fun _ => closeWith_idle

theorem handleMessage_idle {m : FromAgentMessage} {s : Connection}
    (hregister : ∀ register, m = .register register → s.receivedInitialPayload = true)
    (hother : (∀ register, m ≠ .register register) → s.session = none) :
    Idle (handleMessage str connection m) s := by
  intro i _
  show wp _ _ (if (!s.receivedInitialPayload) = true then _ else _) _ s
  cases hreceived : s.receivedInitialPayload with
  | false =>
    simp only [Bool.not_false, if_true]
    cases m with
    | register register =>
      have := hregister register rfl
      simp [hreceived] at this
    | _ => rfl
  | true =>
    simp only [Bool.not_true, Bool.false_eq_true, if_false]
    intro i _
    cases hsession : s.session with
    | none =>
      simp only [Connection.exec, hsession, ret_bind]
      exact idle_of_issues closeWith_idle s
    | some session =>
      simp only [Connection.exec, hsession, ret_bind]
      by_cases hm : ∃ register, m = .register register
      · obtain ⟨register, rfl⟩ := hm
        exact idle_of_issues dispatch_register_idle s
      · have hnone := hother fun register h => hm ⟨register, h⟩
        simp [hsession] at hnone

/-- Where the frame is refused, nothing acts. -/
theorem receive_idle {s : Connection} {f : Frame} (h : Refused codec s f) :
    Idle (receive codec str connection f.text) s := by
  cases hm : codec.decode f.text with
  | none => exact idle_of_issues ((receive_of_decode_none hm).mono fun _ => isTransport_acts) s
  | some m =>
    rw [receive_of_decode hm]
    simp only [Refused, hm] at h
    refine idle_exceptException (handleMessage_idle ?_ ?_) fun _ => closeWith_idle
    · rintro register rfl
      exact h
    · intro hother
      cases m with
      | register register => exact absurd rfl (hother register)
      | _ => exact h

theorem route_acts {n : Nat} {agent : AgentId} {m : FromAgentMessage} {s : Connection}
    (hregister : ∀ register, m ≠ .register register) (hbeat : m ≠ .heartbeatEvent)
    (hn : n ≤ s.acted.length) :
    Acts n (MessageRouter.routeFromAgentMessage str portBackend agent m) s := by
  cases m with
  | register register => exact absurd rfl (hregister register)
  | heartbeatEvent => exact absurd rfl hbeat
  | assignRequest m => exact acts_exceptException (acts_await rfl hn)
  | cancelRequest m autoInterrupt => exact acts_exceptException (acts_await rfl hn)
  | interruptRequest m => exact acts_exceptException (acts_await rfl hn)
  | pauseRequest m => exact acts_exceptException (acts_await rfl hn)
  | resumeRequest m step => exact acts_exceptException (acts_await rfl hn)
  | _ => exact acts_await rfl hn

theorem dispatch_acts {session : RegisteredSession} {m : FromAgentMessage} {s : Connection}
    (hregister : ∀ register, m ≠ .register register) :
    Acts s.acted.length (session.dispatch str m) s := by
  intro i _
  have hstill : (s.record (.dispatch session m) ()).acted = s.acted :=
    acted_exec_of_idle (i := i) (c := .dispatch session m) rfl s
  by_cases hbeat : m = .heartbeatEvent
  · subst hbeat
    intro i' _
    have hstill' := acted_exec_of_idle (i := i') (c := .resolveHeartbeat) rfl
      (s.record (.dispatch session .heartbeatEvent) ())
    exact acts_await rfl (Nat.le_of_eq (congrArg List.length (hstill'.trans hstill)).symm)
  · have hroute : Acts s.acted.length ((MessageRouter.routeFromAgentMessage str portBackend
        session.agent m).attempt.bind RegisteredSession.deliver)
        (s.record (.dispatch session m) ()) :=
      acts_bind (acts_attempt (route_acts hregister hbeat
        (Nat.le_of_eq (congrArg List.length hstill).symm)))
    cases m with
    | heartbeatEvent => exact absurd rfl hbeat
    | _ => exact hroute

/-- A registration that is the first one, and any other message on a session. -/
theorem handleMessage_acts {m : FromAgentMessage} {s : Connection} (hinv : Inv s)
    (hregister : ∀ register, m = .register register → s.receivedInitialPayload = false)
    (hother : (∀ register, m ≠ .register register) → s.session ≠ none) :
    Acts s.acted.length (handleMessage str connection m) s := by
  intro i _
  show wp _ _ (if (!s.receivedInitialPayload) = true then _ else _) _ s
  cases hreceived : s.receivedInitialPayload with
  | false =>
    simp only [Bool.not_false, if_true]
    have hnone := (hinv.fresh hreceived).1
    cases m with
    | register register =>
      intro i _
      exact acts_await rfl (Nat.le_refl _)
    | _ => exact absurd hnone (hother nofun)
  | true =>
    simp only [Bool.not_true, Bool.false_eq_true, if_false]
    have hm : ∀ register, m ≠ .register register := by
      intro register h
      simp [hregister register h] at hreceived
    intro i _
    cases hsession : s.session with
    | none => exact absurd hsession (hother hm)
    | some session =>
      simp only [Connection.exec, hsession, ret_bind]
      exact dispatch_acts hm

theorem receive_acts {s : Connection} {f : Frame} (hinv : Inv s) (h : ¬ Refused codec s f) :
    Acts s.acted.length (receive codec str connection f.text) s := by
  cases hm : codec.decode f.text with
  | none => simp [Refused, hm] at h
  | some m =>
    rw [receive_of_decode hm]
    simp only [Refused, hm] at h
    refine acts_exceptException (handleMessage_acts hinv ?_ ?_)
    · rintro register rfl
      simpa using h
    · intro hother
      cases m with
      | register register => exact absurd rfl (hother register)
      | _ => exact h

/-- A frame makes no call that acts exactly where it is refused. -/
theorem receive_acted_iff {s : Connection} (hinv : Inv s) (f : Frame) :
    (s.receive codec str connection f).acted = s.acted ↔ Refused codec s f := by
  constructor
  · intro heq
    by_contra h
    have hlt : s.acted.length < (s.receive codec str connection f).acted.length :=
      wp_run (receive_acts hinv h) meets_any
    rw [heq] at hlt
    omega
  · intro h
    exact wp_run (receive_idle h) meets_any

/-! ## Results -/

variable (codec str connection)

/-- After a close no frame claims a lease, makes a session or reaches the database. -/
def ClosedMeansClosed (events : List Event) : Prop :=
  ∀ before f after, events = before ++ .frame f :: after →
    (afterEvents codec str connection before).Closed →
    (afterEvents codec str connection (before ++ [.frame f])).acted =
      (afterEvents codec str connection before).acted

/-- **Closed means closed.** It does exactly where each frame that comes after a close carries no
valid message, a registration on a connection that has received one, or another message on a
connection without a session. -/
theorem closed_means_closed_iff (events : List Event) :
    ClosedMeansClosed codec str connection events ↔
      ∀ before f after, events = before ++ .frame f :: after →
        (afterEvents codec str connection before).Closed →
        Refused codec (afterEvents codec str connection before) f := by
  have hframe : ∀ before f, ((afterEvents codec str connection (before ++ [.frame f])).acted =
      (afterEvents codec str connection before).acted) ↔
      Refused codec (afterEvents codec str connection before) f := by
    intro before f
    rw [afterEvents_append]
    exact receive_acted_iff (afterEvents_inv before) f
  simp only [ClosedMeansClosed, hframe]

end

/-- The agent is let in, and everything else is answered. -/
def openAnswers : Answers
  | .authenticator _ => .ok ⟨1, false⟩
  | .getOrCreateCallerId _ => .ok 1
  | .onAgentConnected .. => .ok { claimed := true, epoch := some 1 }
  | .registerCaller _ => .ok ()
  | .registerConnection _ => .ok ()
  | .send _ => .ok ()
  | .close _ => .ok ()
  | .createTask .. => .ok ()
  | _ => .error .cancelledError

/-- A frame that is no text closes the connection, and a registration after it claims the lease and
makes a session. -/
theorem closed_registers :
    ¬ ClosedMeansClosed registerCodec (fun _ => "") 1
      [.frame ⟨none, fun _ => openAnswers⟩, .frame ⟨some "", fun _ => openAnswers⟩] ∧
    (afterEvents registerCodec (fun _ => "") 1
      [.frame ⟨none, fun _ => openAnswers⟩, .frame ⟨some "", fun _ => openAnswers⟩]).session =
      some ⟨1, none, 1, 1, some 1⟩ := by
  refine ⟨fun h => ?_, by decide⟩
  have hclosed : (afterEvents registerCodec (fun _ => "") 1
      [.frame ⟨none, fun _ => openAnswers⟩]).Closed :=
    ⟨_, List.mem_cons_self, rfl⟩
  have heq := h [.frame ⟨none, fun _ => openAnswers⟩] _ [] rfl hclosed
  have hlen := congrArg List.length heq
  revert hlen
  decide

end AgentProtocol
end Rekuest
