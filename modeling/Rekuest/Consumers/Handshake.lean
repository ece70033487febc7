import Rekuest.Consumers.AgentProtocol
import Rekuest.Interleave.Wp

/-!
# Rekuest.Consumers.Handshake

The handshake of a connection, over every sequence of frames and whatever the collaborators answer.

* `Mark`: the calls that are made at most once. `Won`: the calls in which a session was won.
* `Rejects`: the answers that end a registration attempt before it has a session.
* `Handled`, `Attempted`: what handling one frame adds, on a session and in the handshake.
* `Inv`: the invariant of a connection. `receive_inv`: every frame keeps it.
-/

namespace Rekuest
namespace AgentProtocol

open Interleave Interleave.Prog

/-! ## The calls -/

/-- What the handshake does, in this order and each of it once, and the dispatch of a frame. -/
inductive Mark where
  | claim | session
  | loop (loop : Loop)
  | dispatch
  deriving DecidableEq

def Call.mark? : Call → Option Mark
  | collaborator (.onAgentConnected ..) => some .claim
  | setSession _ => some .session
  | collaborator (.createTask loop _) => some (.loop loop)
  | dispatch .. => some .dispatch
  | _ => none

def marks (calls : List Called) : List Mark := calls.filterMap (·.call.mark?)

/-- The marks of a handshake that goes through. -/
def handshakeMarks : List Mark := [.claim, .session, .loop .listen, .loop .heartbeat]

def Call.isTransport : Call → Bool
  | collaborator (.send _) => true
  | collaborator (.close _) => true
  | _ => false

/-- Blocked, refused the lease, or raised before the session was built. -/
def Called.Rejects : Called → Prop
  | ⟨.collaborator (.authenticator _), .ok agent⟩ => agent.blocked = true
  | ⟨.collaborator (.authenticator _), .error _⟩ => True
  | ⟨.collaborator (.getOrCreateCallerId _), .error _⟩ => True
  | ⟨.collaborator (.registerCaller _), .error _⟩ => True
  | ⟨.collaborator (.registerConnection _), .error _⟩ => True
  | ⟨.collaborator (.onAgentConnected ..), .ok claim⟩ => claim.claimed = false
  | ⟨.collaborator (.onAgentConnected ..), .error _⟩ => True
  | ⟨.collaborator .kickOthers, .error _⟩ => True
  | _ => False

/-- In these calls a registration was authenticated, found unblocked and given the lease, and the
session is the one it won. -/
def Won (calls : List Called) (session : RegisteredSession) : Prop :=
  ∃ (register : Register) (agent : AuthenticatedAgent) (claim : PersistBackend.LeaseClaim),
    ⟨.collaborator (.authenticator register), .ok agent⟩ ∈ calls ∧ agent.blocked = false ∧
    ⟨.collaborator (.onAgentConnected agent.pk (some session.connectionId) register.sessionId
      register.force), .ok claim⟩ ∈ calls ∧ claim.claimed = true ∧
    session.agent = agent.pk ∧ session.leaseEpoch = claim.epoch

theorem Won.mono {calls calls' : List Called} {session : RegisteredSession}
    (h : Won calls session) (hsub : ∀ c ∈ calls, c ∈ calls') : Won calls' session := by
  obtain ⟨register, agent, claim, ha, hb, hc, hd⟩ := h
  exact ⟨register, agent, claim, hsub _ ha, hb, hsub _ hc, hd⟩

theorem Won.append {calls more : List Called} {session : RegisteredSession}
    (h : Won calls session) : Won (calls ++ more) session :=
  h.mono fun _ hc => List.mem_append_left _ hc

@[simp] theorem marks_append (calls more : List Called) :
    marks (calls ++ more) = marks calls ++ marks more := List.filterMap_append

theorem marks_eq_nil {calls : List Called} (h : ∀ c ∈ calls, c.call.mark? = none) :
    marks calls = [] := by
  induction calls with
  | nil => rfl
  | cons c calls ih =>
    have hrest : marks calls = [] := ih fun x hx => h x (by simp [hx])
    simp only [marks, List.filterMap_cons, h c (by simp)]
    exact hrest

/-! ## Steps -/

namespace Connection

/-- The connection after these calls, none of which writes a field. -/
def recordAll (s : Connection) (calls : List Called) : Connection :=
  { s with calls := s.calls ++ calls }

@[simp] theorem recordAll_nil (s : Connection) : s.recordAll [] = s := by simp [recordAll]

@[simp] theorem record_recordAll (s : Connection) (calls : List Called) (c : Call)
    (answer : c.Ans) : (s.recordAll calls).record c answer = s.recordAll (calls ++ [⟨c, answer⟩]) := by
  simp [record, recordAll]

@[simp] theorem recordAll_recordAll (s : Connection) (calls more : List Called) :
    (s.recordAll calls).recordAll more = s.recordAll (calls ++ more) := by
  simp [recordAll]

end Connection

/-- Whether the call writes a field. -/
def Call.writesField : Call → Bool
  | setReceivedInitialPayload => true
  | setSession _ => true
  | _ => false

/-- A call that writes no field is recorded, or reads one. -/
theorem exec_cases (i : Answers) {c : Call} (s : Connection) (h : c.writesField = false) :
    ∃ calls, (Connection.exec i c s).2 = s.recordAll calls ∧ ∀ x ∈ calls, x.call = c := by
  cases c with
  | setReceivedInitialPayload => cases h
  | setSession session => cases h
  | receivedInitialPayload => exact ⟨[], by simp [Connection.exec], by simp⟩
  | session => exact ⟨[], by simp [Connection.exec], by simp⟩
  | dispatch session m => exact ⟨[⟨.dispatch session m, ()⟩], rfl, by simp⟩
  | collaborator c => exact ⟨[⟨.collaborator c, i c⟩], rfl, by simp⟩
  | armHeartbeat => exact ⟨[⟨.armHeartbeat, ()⟩], rfl, by simp⟩
  | cancelTask loop => exact ⟨[⟨.cancelTask loop, ()⟩], rfl, by simp⟩
  | resolveHeartbeat => exact ⟨[⟨.resolveHeartbeat, ()⟩], rfl, by simp⟩
  | stopExecuting => exact ⟨[⟨.stopExecuting, ()⟩], rfl, by simp⟩

section Quiet

variable {α : Type} {P : Call → Prop} {p : Protocol α} {s : Connection}

/-- A program whose calls write no field leaves the fields, and records calls of its own. -/
theorem wp_recordAll (hP : ∀ c, P c → c.writesField = false) (hp : p.Issues P)
    {Q : Except Raised α → Connection → Prop}
    (hQ : ∀ r calls, (∀ x ∈ calls, P x.call) → Q r (s.recordAll calls)) :
    wp Connection.exec anyStep p Q s := by
  induction p generalizing s with
  | ret a =>
    show Q (.ok a) s
    simpa using hQ (.ok a) [] (by simp)
  | fail e =>
    show Q (.error e) s
    simpa using hQ (.error e) [] (by simp)
  | stmt c k ih =>
    intro i _
    obtain ⟨first, hfirst, hown⟩ := exec_cases i s (hP c hp.1)
    rw [hfirst]
    refine ih _ (hp.2 _) fun r rest hrest => ?_
    rw [Connection.recordAll_recordAll]
    refine hQ r (first ++ rest) fun x hx => ?_
    rcases List.mem_append.mp hx with h | h
    · rw [hown x h]
      exact hp.1
    · exact hrest x h

theorem isTransport_writesField (c : Call) (h : c.isTransport = true) : c.writesField = false := by
  cases c <;> simp_all [Call.isTransport, Call.writesField]

theorem isTransport_mark? {c : Call} (h : c.isTransport = true) : c.mark? = none := by
  unfold Call.isTransport at h
  split at h
  · rfl
  · rfl
  · cases h

end Quiet

theorem await_issues {P : Call → Prop} {c : Collaborator} (h : P (.collaborator c)) :
    (await c).Issues P := by
  refine .issue_bind h fun answer => ?_
  cases answer <;> trivial

theorem closeWith_issues {code : Nat} : (closeWith code).Issues fun c : Call => c.isTransport = true :=
  await_issues rfl

theorem sendToAgentMessage_issues {m : Outbound} :
    (sendToAgentMessage m).Issues fun c : Call => c.isTransport = true :=
  await_issues rfl

/-! ## The handshake -/

/-- What a registration attempt adds: the first few marks of a handshake, and then either no
session or one that was won, by calls none of which ended the attempt. -/
structure Attempted (s s' : Connection) (calls : List Called) : Prop where
  received : s'.receivedInitialPayload = s.receivedInitialPayload
  calls_eq : s'.calls = s.calls ++ calls
  order : marks calls <+: handshakeMarks
  session : s'.session = s.session ∨
    ∃ session, s'.session = some session ∧ Won calls session ∧ ∀ c ∈ calls, ¬ c.Rejects

/-- An attempt that ends without a session. -/
theorem attempted_recordAll {s : Connection} {calls : List Called}
    (h : marks calls <+: handshakeMarks) : ∃ calls', Attempted s (s.recordAll calls) calls' :=
  ⟨calls, rfl, rfl, h, .inl rfl⟩

/-- A collaborator answers what it likes, or raises. -/
theorem wp_await {α : Type} {c : Collaborator} {f : c.Result → Protocol α} {s : Connection}
    {Q : Except Raised α → Connection → Prop}
    (herror : ∀ e, Q (.error e) (s.record (.collaborator c) (.error e)))
    (hok : ∀ a, wp Connection.exec anyStep (f a) Q (s.record (.collaborator c) (.ok a))) :
    wp Connection.exec anyStep ((await c).bind f) Q s := by
  intro i _
  show wp _ _ (Prog.bind (match i c with | .ok a => .ret a | .error e => .fail e) f) _
    (s.record (.collaborator c) (i c))
  cases i c with
  | ok a => exact hok a
  | error e => exact herror e

/-- The last call of a program. -/
theorem wp_call {c : Collaborator} {s : Connection}
    {Q : Except Raised c.Result → Connection → Prop}
    (h : ∀ answer, Q answer (s.record (.collaborator c) answer)) :
    wp Connection.exec anyStep (await c) Q s := by
  intro i _
  show wp _ _ (match i c with | .ok a => .ret a | .error e => .fail e) _
    (s.record (.collaborator c) (i c))
  cases i c with
  | ok a => exact h (.ok a)
  | error e => exact h (.error e)

/-- An attempt up to the answer of a collaborator, which may raise and end it. -/
theorem wp_attempting {α : Type} {c : Collaborator} {f : c.Result → Protocol α} {s : Connection}
    {calls : List Called} (seen : List Mark) (hcalls : marks calls = seen)
    (hmark : seen ++ (Call.collaborator c).mark?.toList <+: handshakeMarks)
    (h : ∀ a, wp Connection.exec anyStep (f a) (fun _ s' => ∃ calls, Attempted s s' calls)
      (s.recordAll (calls ++ [⟨.collaborator c, .ok a⟩]))) :
    wp Connection.exec anyStep ((await c).bind f) (fun _ s' => ∃ calls, Attempted s s' calls)
      (s.recordAll calls) := by
  refine wp_await (fun e => ?_) fun a => ?_
  · rw [Connection.record_recordAll]
    refine attempted_recordAll ?_
    subst hcalls
    cases hm : (Call.collaborator c).mark? <;> simpa [marks, hm] using hmark
  · rw [Connection.record_recordAll]
    exact h a

/-- An attempt that has nothing left but to tell the agent that it failed. -/
theorem wp_rejected {p : Protocol Unit} (hp : p.Issues fun c : Call => c.isTransport = true)
    {s : Connection} {calls : List Called} (h : marks calls <+: handshakeMarks) :
    wp Connection.exec anyStep p (fun _ s' => ∃ calls, Attempted s s' calls)
      (s.recordAll calls) := by
  refine wp_recordAll isTransport_writesField hp fun r more hmore => ?_
  rw [Connection.recordAll_recordAll]
  refine attempted_recordAll ?_
  rw [marks_append, marks_eq_nil fun c hc => isTransport_mark? (hmore c hc), List.append_nil]
  exact h

/-- The last steps, on the session that was won: `Init` and the two loops. -/
theorem wp_won {s : Connection} {calls : List Called} {session : RegisteredSession}
    {m : Outbound} {agent : AgentId} (hmarks : marks calls = [.claim]) (hwon : Won calls session)
    (hclean : ∀ c ∈ calls, ¬ c.Rejects) :
    wp Connection.exec anyStep
      ((perform (.setSession session)).bind fun _ => (sendToAgentMessage m).bind fun _ =>
        (await (.createTask .listen agent)).bind fun _ => await (.createTask .heartbeat agent))
      (fun _ s' => ∃ calls, Attempted s s' calls) (s.recordAll calls) := by
  -- whatever of it is done, the session is there
  have hend : ∀ more, marks more <+: [.session, .loop .listen, .loop .heartbeat] →
      (∀ c ∈ more, ¬ c.Rejects) →
      ∃ calls', Attempted s (({ s with session := some session }).recordAll (calls ++ more)) calls' := by
    intro more hmore hclean'
    refine ⟨calls ++ more, rfl, rfl, ?_, .inr ⟨session, rfl, hwon.append, fun c hc => ?_⟩⟩
    · rw [marks_append, hmarks]
      exact List.cons_prefix_cons.mpr ⟨rfl, hmore⟩
    · rcases List.mem_append.mp hc with h | h
      · exact hclean c h
      · exact hclean' c h
  intro i _
  have hset : (Connection.exec i (.setSession session) (s.recordAll calls)).2 =
      ({ s with session := some session }).recordAll
        (calls ++ ([⟨.setSession session, ()⟩] : List Called)) := by
    simp [Connection.exec, Connection.recordAll, Connection.record]
  rw [hset]
  refine wp_await (fun e => ?_) fun _ => ?_
  · rw [Connection.record_recordAll, List.append_assoc]
    exact hend _ ⟨_, rfl⟩ (by simp [Called.Rejects])
  rw [Connection.record_recordAll, List.append_assoc]
  refine wp_await (fun e => ?_) fun _ => ?_
  · rw [Connection.record_recordAll, List.append_assoc]
    exact hend _ ⟨_, rfl⟩ (by simp [Called.Rejects])
  rw [Connection.record_recordAll, List.append_assoc]
  refine wp_call fun answer => ?_
  rw [Connection.record_recordAll, List.append_assoc]
  exact hend _ ⟨_, rfl⟩ (by cases answer <;> simp [Called.Rejects])

/-- Every end of `onRegister` is an attempt. -/
theorem onRegister_attempted {connection : ConnectionId} {register : Register} {s : Connection} :
    wp Connection.exec anyStep (onRegister connection register)
      (fun _ s' => ∃ calls, Attempted s s' calls) s := by
  suffices h : wp Connection.exec anyStep (onRegister connection register)
      (fun _ s' => ∃ calls, Attempted s s' calls) (s.recordAll []) by
    rwa [Connection.recordAll_nil] at h
  refine wp_attempting [] rfl ⟨_, rfl⟩ fun agent => ?_
  cases hb : agent.blocked with
  | true =>
    simp only [if_true]
    exact wp_rejected closeWith_issues ⟨_, rfl⟩
  | false =>
    simp only [Bool.false_eq_true, if_false]
    refine wp_attempting [] rfl ⟨_, rfl⟩ fun caller => ?_
    refine wp_attempting [] rfl ⟨_, rfl⟩ fun _ => ?_
    refine wp_attempting [] rfl ⟨_, rfl⟩ fun _ => ?_
    refine wp_attempting [] rfl ⟨_, rfl⟩ fun claim => ?_
    cases hc : claim.claimed with
    | false =>
      simp only [Bool.not_false, if_true]
      exact wp_rejected (.bind sendToAgentMessage_issues fun _ => closeWith_issues) ⟨_, rfl⟩
    | true =>
      simp only [Bool.not_true, Bool.false_eq_true, if_false]
      cases hd : claim.displacedIncumbent with
      | true =>
        simp only [if_true]
        refine wp_attempting [.claim] rfl ⟨_, rfl⟩ fun _ => ?_
        refine wp_won rfl ?_ ?_
        · refine ⟨register, agent, claim, ?_⟩
          simp [hb, hc]
        · simp [Called.Rejects, hb, hc]
      | false =>
        simp only [Bool.false_eq_true, if_false]
        refine wp_won rfl ?_ ?_
        · refine ⟨register, agent, claim, ?_⟩
          simp [hb, hc]
        · simp [Called.Rejects, hb, hc]

/-! ## Frames on a session -/

/-- The calls of a frame on a session. -/
def Call.serves : Call → Bool
  | collaborator (.renewAgentLease ..) => true
  | collaborator (.backend _) => true
  | armHeartbeat => true
  | resolveHeartbeat => true
  | stopExecuting => true
  | c => c.isTransport

theorem serves_mark? {c : Call} (h : c.serves = true) : c.mark? = none := by
  unfold Call.serves at h
  split at h
  · rfl
  · rfl
  · rfl
  · rfl
  · rfl
  · exact isTransport_mark? h

theorem serves_writesField (c : Call) (h : c.serves = true) : c.writesField = false := by
  cases c <;> simp_all [Call.serves, Call.isTransport, Call.writesField]

theorem isTransport_serves (c : Call) (h : c.isTransport = true) : c.serves = true := by
  unfold Call.isTransport at h
  split at h
  · rfl
  · rfl
  · cases h

theorem exceptException_issues {α : Type} {P : Call → Prop} {p : Protocol α}
    {handle : Raised → Protocol α} (hp : p.Issues P) (hh : ∀ e, (handle e).Issues P) :
    (exceptException p handle).Issues P := by
  refine hp.attempt.bind fun r => ?_
  cases r with
  | ok a => trivial
  | error e =>
    dsimp only
    split
    · exact hh e
    · trivial

theorem control_issues {str : Raised → String} {op : Protocol TaskId} {m : ControlRequest}
    (h : op.Issues fun c : Call => c.serves = true) :
    (MessageRouter.control str op m).Issues fun c : Call => c.serves = true :=
  exceptException_issues (h.bind fun _ => trivial) fun _ => trivial

theorem route_issues {str : Raised → String} {agent : AgentId} {m : FromAgentMessage} :
    (MessageRouter.routeFromAgentMessage str portBackend agent m).Issues
      fun c : Call => c.serves = true := by
  cases m with
  | register m => trivial
  | heartbeatEvent => trivial
  | assignRequest m =>
    exact exceptException_issues (.bind (await_issues rfl) fun _ => trivial) fun _ => trivial
  | cancelRequest m autoInterrupt => exact control_issues (await_issues rfl)
  | interruptRequest m => exact control_issues (await_issues rfl)
  | pauseRequest m => exact control_issues (await_issues rfl)
  | resumeRequest m step => exact control_issues (await_issues rfl)
  | report m => exact .bind (await_issues rfl) fun _ => trivial
  | statePatch m => exact .bind (await_issues rfl) fun _ => trivial
  | stateSnapshot m => exact .bind (await_issues rfl) fun _ => trivial
  | sessionInit m => exact .bind (await_issues rfl) fun _ => trivial
  | lock m => exact .bind (await_issues rfl) fun _ => trivial
  | unlock key => exact .bind (await_issues rfl) fun _ => trivial

theorem onAgentHeartbeat_issues {session : RegisteredSession} :
    (RegisteredSession.onAgentHeartbeat session).Issues fun c : Call => c.serves = true := by
  refine .issue_bind rfl fun _ => .bind (await_issues rfl) fun renewed => ?_
  cases renewed with
  | true => trivial
  | false => exact .issue_bind rfl fun _ => closeWith_issues.mono isTransport_serves

theorem deliver_issues {routed : Except Raised (Option Reply)} :
    (RegisteredSession.deliver routed).Issues fun c : Call => c.serves = true := by
  rcases routed with e | (_ | reply)
  · show Issues _ (if Exceptions.isUnknownAgentMessage e = true then _ else _)
    split
    · exact closeWith_issues.mono isTransport_serves
    · trivial
  · trivial
  · exact sendToAgentMessage_issues.mono isTransport_serves

/-- The calls of a dispatch, the dispatch itself first. -/
theorem wp_dispatch {str : Raised → String} {session : RegisteredSession} {m : FromAgentMessage}
    {s : Connection} :
    wp Connection.exec anyStep (session.dispatch str m)
      (fun _ s' => ∃ calls, (∀ c ∈ calls, c.call.serves = true) ∧
        s' = s.recordAll (⟨.dispatch session m, ()⟩ :: calls)) s := by
  intro i _
  refine wp_recordAll serves_writesField ?_ fun r calls hcalls => ⟨calls, hcalls, ?_⟩
  · have hrouted : ∀ m, ((MessageRouter.routeFromAgentMessage str portBackend session.agent
        m).attempt.bind RegisteredSession.deliver).Issues fun c : Call => c.serves = true :=
      fun m => .bind route_issues.attempt fun routed => deliver_issues
    cases m with
    | heartbeatEvent => exact onAgentHeartbeat_issues
    | _ => exact hrouted _
  · simp [Connection.exec, Connection.record, Connection.recordAll]

/-! ## Frames -/

/-- What handling one frame does to the connection. -/
inductive Handled (s s' : Connection) : Prop where
  /-- Nothing reaches further than the transport. -/
  | answered (calls : List Called) (h : ∀ c ∈ calls, c.call.isTransport = true)
    (hs : s' = s.recordAll calls)
  | attempted (mid : Connection) (calls closing : List Called)
    (hfresh : s.receivedInitialPayload = false)
    (h : Attempted { s with receivedInitialPayload := true } mid calls)
    (hclosing : ∀ c ∈ closing, c.call.isTransport = true) (hs : s' = mid.recordAll closing)
  | served (session : RegisteredSession) (m : FromAgentMessage) (calls : List Called)
    (hsession : s.session = some session) (h : ∀ c ∈ calls, c.call.serves = true)
    (hs : s' = s.recordAll (⟨.dispatch session m, ()⟩ :: calls))

theorem Handled.close {s s' : Connection} (h : Handled s s') {calls : List Called}
    (hcalls : ∀ c ∈ calls, c.call.isTransport = true) : Handled s (s'.recordAll calls) := by
  have happend : ∀ {before : List Called} {p : Call → Bool}, (∀ c ∈ before, p c.call = true) →
      (∀ c ∈ calls, p c.call = true) → ∀ c ∈ before ++ calls, p c.call = true := by
    intro before p hb hc c hmem
    rcases List.mem_append.mp hmem with h | h
    · exact hb c h
    · exact hc c h
  cases h with
  | answered before hbefore hs =>
    subst hs
    exact .answered (before ++ calls) (happend hbefore hcalls) (s.recordAll_recordAll _ _)
  | attempted mid made closing hfresh h hclosing hs =>
    subst hs
    exact .attempted mid made (closing ++ calls) hfresh h (happend hclosing hcalls)
      (mid.recordAll_recordAll _ _)
  | served session m before hsession hbefore hs =>
    subst hs
    exact .served session m (before ++ calls) hsession
      (happend hbefore fun c hc => isTransport_serves _ (hcalls c hc))
      (s.recordAll_recordAll _ _)

theorem wp_transport {p : Protocol Unit} (hp : p.Issues fun c : Call => c.isTransport = true)
    {s s' : Connection} (h : Handled s s') :
    wp Connection.exec anyStep p (fun _ s'' => Handled s s'') s' :=
  wp_recordAll isTransport_writesField hp fun _ _ hcalls => h.close hcalls

theorem handled_self (s : Connection) : Handled s s :=
  .answered [] (by simp) s.recordAll_nil.symm

theorem wp_handleMessage {str : Raised → String} {connection : ConnectionId}
    {m : FromAgentMessage} {s : Connection} :
    wp Connection.exec anyStep (handleMessage str connection m) (fun _ s' => Handled s s') s := by
  intro i _
  show wp _ _ (if (!s.receivedInitialPayload) = true then _ else _) _ s
  cases hreceived : s.receivedInitialPayload with
  | false =>
    simp only [Bool.not_false, if_true]
    cases m with
    | register register =>
      intro i _
      refine wp_mono ?_ (onRegister_attempted (s := { s with receivedInitialPayload := true }))
      rintro r s' ⟨calls, h⟩
      exact .attempted s' calls [] hreceived h (by simp) s'.recordAll_nil.symm
    | _ => exact handled_self s
  | true =>
    simp only [Bool.not_true, Bool.false_eq_true, if_false]
    intro i _
    cases hsession : s.session with
    | none =>
      simp only [Connection.exec, hsession, ret_bind]
      exact wp_transport closeWith_issues (handled_self s)
    | some session =>
      simp only [Connection.exec, hsession, ret_bind]
      refine wp_mono ?_ wp_dispatch
      rintro r s' ⟨calls, hcalls, rfl⟩
      exact .served session m calls hsession hcalls rfl

theorem wp_receive {codec : Codec} {str : Raised → String} {connection : ConnectionId}
    {text : Option String} {s : Connection} :
    wp Connection.exec anyStep (receive codec str connection text)
      (fun _ s' => Handled s s') s := by
  cases text with
  | none => exact wp_transport closeWith_issues (handled_self s)
  | some text =>
    cases hloads : codec.loads text with
    | error e =>
      cases e with
      | jsonDecodeError =>
        simp only [receive, hloads]
        exact wp_transport closeWith_issues (handled_self s)
      | other e =>
        simp only [receive, hloads]
        exact handled_self s
    | ok raw =>
      cases hm : codec.validate raw with
      | error e =>
        simp only [receive, hloads, hm]
        exact wp_transport (.bind sendToAgentMessage_issues fun _ => closeWith_issues)
          (handled_self s)
      | ok m =>
        simp only [receive, hloads, hm]
        refine wp_exceptException.mpr (wp_mono ?_ wp_handleMessage)
        intro r s' h
        cases r with
        | ok a => exact h
        | error e => exact ⟨fun _ => wp_transport closeWith_issues h, fun _ => h⟩

theorem receive_cases {codec : Codec} {str : Raised → String} {connection : ConnectionId}
    (s : Connection) (f : Frame) : Handled s (s.receive codec str connection f) :=
  wp_run wp_receive meets_any

/-! ## The invariant -/

structure Safe (calls : List Called) : Prop where
  /-- No frame reaches a session that was not won before. -/
  won : ∀ before session m after, calls = before ++ ⟨.dispatch session m, ()⟩ :: after →
    Won before session
  /-- One claim, one session, one loop of each kind. -/
  once : ∀ mark, mark ≠ .dispatch → (marks calls).count mark ≤ 1

structure Inv (s : Connection) : Prop where
  won : ∀ before session m after, s.calls = before ++ ⟨.dispatch session m, ()⟩ :: after →
    Won before session
  order : (marks s.calls).filter (· ≠ .dispatch) <+: handshakeMarks
  fresh : s.receivedInitialPayload = false →
    s.session = none ∧ ∀ c ∈ s.calls, c.call.isTransport = true
  held : ∀ session, s.session = some session → Won s.calls session
  clean : (∃ c ∈ s.calls, c.Rejects) → s.receivedInitialPayload = true ∧ s.session = none

theorem count_handshakeMarks_le (mark : Mark) : handshakeMarks.count mark ≤ 1 := by
  cases mark with
  | loop loop => cases loop <;> decide
  | _ => decide

theorem Inv.safe {s : Connection} (h : Inv s) : Safe s.calls where
  won := h.won
  once mark hmark := by
    have hle := (h.order.sublist.count_le mark).trans (count_handshakeMarks_le mark)
    rwa [List.count_filter (by simpa using hmark)] at hle

/-- Where calls without a dispatch follow, every dispatch has its session won before it. -/
theorem won_append {calls more : List Called}
    (h : ∀ before session m after, calls = before ++ ⟨.dispatch session m, ()⟩ :: after →
      Won before session) (hmore : ∀ c ∈ more, c.call.mark? ≠ some .dispatch) :
    ∀ before session m after, calls ++ more = before ++ ⟨.dispatch session m, ()⟩ :: after →
      Won before session := by
  intro before session m after heq
  rcases List.append_eq_append_iff.mp heq with ⟨as, hb, hm⟩ | ⟨cs, hc, hm⟩
  · refine absurd rfl (hmore ⟨.dispatch session m, ()⟩ ?_)
    rw [hm]
    simp
  · cases cs with
    | nil =>
      refine absurd rfl (hmore ⟨.dispatch session m, ()⟩ ?_)
      rw [← List.nil_append more, ← hm]
      simp
    | cons c cs =>
      simp only [List.cons_append, List.cons.injEq] at hm
      obtain ⟨rfl, _⟩ := hm
      exact h before session m cs hc

theorem serves_not_rejects {c : Called} (h : c.call.serves = true) : ¬ c.Rejects := by
  obtain ⟨call, answer⟩ := c
  cases call with
  | collaborator c =>
    cases c with
    | renewAgentLease agent epoch => exact id
    | backend call => exact id
    | send m => exact id
    | close code => exact id
    | _ => simp [Call.serves, Call.isTransport] at h
  | _ => exact id

/-- Calls that carry no mark and end no attempt change nothing that the invariant is about. -/
theorem Inv.recordAll {s : Connection} (h : Inv s) {calls : List Called}
    (hserves : ∀ c ∈ calls, c.call.serves = true)
    (hfresh : s.receivedInitialPayload = false → ∀ c ∈ calls, c.call.isTransport = true) :
    Inv (s.recordAll calls) where
  won := won_append h.won fun c hc hm => by simp [serves_mark? (hserves c hc)] at hm
  order := by
    show (marks (s.calls ++ calls)).filter _ <+: _
    rw [marks_append, marks_eq_nil fun c hc => serves_mark? (hserves c hc), List.append_nil]
    exact h.order
  fresh hr := by
    refine ⟨(h.fresh hr).1, fun c hc => ?_⟩
    rcases List.mem_append.mp hc with hc | hc
    · exact (h.fresh hr).2 c hc
    · exact hfresh hr c hc
  held session hs := (h.held session hs).append
  clean hex := by
    obtain ⟨c, hc, hrejects⟩ := hex
    refine h.clean ⟨c, ?_, hrejects⟩
    rcases List.mem_append.mp hc with hc | hc
    · exact hc
    · exact absurd hrejects (serves_not_rejects (hserves c hc))

/-- The dispatch of a frame to the session that the connection holds. -/
theorem Inv.dispatched {s : Connection} (h : Inv s) {session : RegisteredSession}
    {m : FromAgentMessage} (hs : s.session = some session) :
    Inv (s.recordAll [⟨.dispatch session m, ()⟩]) where
  won before session' m' after heq := by
    rcases List.eq_nil_or_concat after with rfl | ⟨after, c, rfl⟩
    · obtain ⟨rfl, hd⟩ := List.append_inj' heq rfl
      simp only [List.cons.injEq, Called.mk.injEq, Call.dispatch.injEq] at hd
      obtain ⟨⟨⟨rfl, _⟩, _⟩, _⟩ := hd
      exact h.held session hs
    · have heq' : s.calls ++ [⟨.dispatch session m, ()⟩] =
          (before ++ ⟨.dispatch session' m', ()⟩ :: after) ++ [c] := by
        simpa [Connection.recordAll] using heq
      exact h.won before session' m' after (List.append_inj' heq' rfl).1
  order := by
    show (marks (s.calls ++ _)).filter _ <+: _
    rw [marks_append]
    simpa [marks, Call.mark?] using h.order
  fresh hr := by
    have := (h.fresh hr).1
    simp [hs] at this
  held session' hs' := (h.held session' hs').append
  clean hex := by
    obtain ⟨c, hc, hrejects⟩ := hex
    refine h.clean ⟨c, ?_, hrejects⟩
    rcases List.mem_append.mp hc with hc | hc
    · exact hc
    · cases List.mem_singleton.mp hc
      exact absurd hrejects id

/-- A registration attempt, the first one of the connection. -/
theorem Inv.attempted {s mid : Connection} (h : Inv s) {calls : List Called}
    (hfresh : s.receivedInitialPayload = false)
    (ha : Attempted { s with receivedInitialPayload := true } mid calls) : Inv mid := by
  obtain ⟨hnone, htransport⟩ := h.fresh hfresh
  have hmarks : marks mid.calls = marks calls := by
    rw [ha.calls_eq, marks_append, marks_eq_nil fun c hc => isTransport_mark? (htransport c hc)]
    rfl
  have hdispatch : Mark.dispatch ∉ marks mid.calls := by
    intro hmem
    rw [hmarks] at hmem
    exact absurd (ha.order.subset hmem) (by decide)
  refine ⟨?_, ?_, ?_, ?_, ?_⟩
  · intro before session m after heq
    refine absurd ?_ hdispatch
    rw [heq, marks_append]
    simp [marks, Call.mark?]
  · rw [List.filter_eq_self.mpr, hmarks]
    · exact ha.order
    · intro mark hmark
      have hne : mark ≠ .dispatch := by
        rintro rfl
        exact hdispatch hmark
      simpa using hne
  · intro hr
    rw [ha.received] at hr
    cases hr
  · intro session hs
    rcases ha.session with hs' | ⟨session', hs', hwon, _⟩
    · simp [hs', hnone] at hs
    · cases hs.symm.trans hs'
      exact hwon.mono fun c hc => by simp [ha.calls_eq, hc]
  · rintro ⟨c, hc, hrejects⟩
    refine ⟨ha.received, ?_⟩
    rcases ha.session with hs' | ⟨session', _, _, hclean⟩
    · exact hs'.trans hnone
    · rw [ha.calls_eq] at hc
      rcases List.mem_append.mp hc with hc | hc
      · exact absurd hrejects (serves_not_rejects (isTransport_serves _ (htransport c hc)))
      · exact absurd hrejects (hclean c hc)

theorem receive_inv {codec : Codec} {str : Raised → String} {connection : ConnectionId}
    {s : Connection} (h : Inv s) (f : Frame) : Inv (s.receive codec str connection f) := by
  have hcases : Handled s (s.receive codec str connection f) := receive_cases s f
  cases hcases with
  | answered calls hcalls hs =>
    rw [hs]
    exact h.recordAll (fun c hc => isTransport_serves _ (hcalls c hc)) fun _ => hcalls
  | attempted mid calls closing hfresh ha hclosing hs =>
    rw [hs]
    exact (h.attempted hfresh ha).recordAll (fun c hc => isTransport_serves _ (hclosing c hc))
      fun _ => hclosing
  | served session m calls hsession hcalls hs =>
    have hsplit : s.recordAll (⟨.dispatch session m, ()⟩ :: calls) =
        (s.recordAll [⟨.dispatch session m, ()⟩]).recordAll calls := by
      rw [Connection.recordAll_recordAll]
      rfl
    rw [hs, hsplit]
    refine (h.dispatched hsession).recordAll hcalls fun hr => ?_
    have := (h.fresh hr).1
    simp [hsession] at this

theorem afterFrames_inv {codec : Codec} {str : Raised → String} {connection : ConnectionId}
    (frames : List Frame) : Inv (afterFrames codec str connection frames) := by
  have hrun : ∀ s, Inv s → Inv (frames.foldl (Connection.receive codec str connection) s) := by
    induction frames with
    | nil => exact fun _ h => h
    | cons f frames ih => exact fun s h => ih _ (receive_inv h f)
  refine hrun {} ⟨?_, ?_, fun _ => ⟨rfl, by simp⟩, ?_, ?_⟩
  · intro before session m after heq
    simp at heq
  · exact List.nil_prefix
  · simp
  · simp

/-! ## Results -/

/-- After a rejection, a frame reaches no further than the transport. -/
theorem receive_rejected {codec : Codec} {str : Raised → String} {connection : ConnectionId}
    {s : Connection} (h : Inv s) (hrejected : ∃ c ∈ s.calls, c.Rejects) (f : Frame) :
    ∃ calls, s.receive codec str connection f = s.recordAll calls ∧
      ∀ c ∈ calls, c.call.isTransport = true := by
  obtain ⟨hreceived, hnone⟩ := h.clean hrejected
  have hcases : Handled s (s.receive codec str connection f) := receive_cases s f
  cases hcases with
  | answered calls hcalls hs => exact ⟨calls, hs, hcalls⟩
  | attempted mid calls closing hfresh =>
    rw [hreceived] at hfresh
    cases hfresh
  | served session m calls hsession =>
    rw [hnone] at hsession
    cases hsession

/-- And so do all the frames that follow. -/
theorem run_rejected {codec : Codec} {str : Raised → String} {connection : ConnectionId}
    {s : Connection} (h : Inv s) (hrejected : ∃ c ∈ s.calls, c.Rejects) (later : List Frame) :
    ∃ calls, (later.foldl (Connection.receive codec str connection) s).calls = s.calls ++ calls ∧
      ∀ c ∈ calls, c.call.isTransport = true := by
  induction later generalizing s with
  | nil => exact ⟨[], by simp, by simp⟩
  | cons f later ih =>
    obtain ⟨first, hfirst, htransport⟩ : ∃ calls, s.receive codec str connection f =
        s.recordAll calls ∧ ∀ c ∈ calls, c.call.isTransport = true :=
      receive_rejected h hrejected f
    obtain ⟨c, hc, hr⟩ := hrejected
    have hstill : ∃ c ∈ (s.receive codec str connection f).calls, c.Rejects :=
      ⟨c, by rw [hfirst]; exact List.mem_append_left _ hc, hr⟩
    obtain ⟨rest, hrest, htransport'⟩ := ih (receive_inv h f) hstill
    refine ⟨first ++ rest, ?_, fun c hc => ?_⟩
    · rw [List.foldl_cons, hrest, hfirst]
      simp [Connection.recordAll]
    · rcases List.mem_append.mp hc with hc | hc
      · exact htransport c hc
      · exact htransport' c hc

/-- **Handshake.** However frames and answers come: no frame is dispatched to a session before a
registration won it; there is one claim, one session and one pair of loops at most; and once an
attempt was rejected, later frames reach no further than the transport. -/
theorem handshake_safe (codec : Codec) (str : Raised → String) (connection : ConnectionId)
    (frames : List Frame) :
    Safe (afterFrames codec str connection frames).calls ∧
    ∀ later, (∃ c ∈ (afterFrames codec str connection frames).calls, c.Rejects) →
      ∃ calls, (afterFrames codec str connection (frames ++ later)).calls =
          (afterFrames codec str connection frames).calls ++ calls ∧
        ∀ c ∈ calls, c.call.isTransport = true := by
  refine ⟨(afterFrames_inv frames).safe, fun later hrejected => ?_⟩
  rw [show afterFrames codec str connection (frames ++ later) =
    later.foldl (Connection.receive codec str connection)
      (afterFrames codec str connection frames) from List.foldl_append]
  exact run_rejected (afterFrames_inv frames) hrejected later

/-- Every text is a registration. -/
def registerCodec : Codec where
  Raw := Unit
  loads _ := .ok ()
  validate _ := .ok (.register { token := "token" })

/-- The agent is blocked, and nothing else is ever answered. -/
def blockedAnswers : Answers
  | .authenticator _ => .ok ⟨1, true⟩
  | _ => .error .cancelledError

/-- A blocked agent that registers again and again reaches the transport at most. -/
theorem handshake_safe_blocked (str : Raised → String) :
    ∃ calls, (afterFrames registerCodec str 1 ([⟨some "", fun _ => blockedAnswers⟩] ++
        [⟨some "", fun _ => blockedAnswers⟩])).calls =
          (afterFrames registerCodec str 1 [⟨some "", fun _ => blockedAnswers⟩]).calls ++ calls ∧
        ∀ c ∈ calls, c.call.isTransport = true :=
  (handshake_safe registerCodec str 1 [⟨some "", fun _ => blockedAnswers⟩]).2
    [⟨some "", fun _ => blockedAnswers⟩]
    ⟨⟨.collaborator (.authenticator { token := "token" }), .ok ⟨1, true⟩⟩, List.mem_cons_self, rfl⟩

end AgentProtocol
end Rekuest
