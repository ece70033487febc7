import Rekuest.Consumers.Closing

/-!
# Rekuest.Consumers.Release

The lease that a connection claimed, and its release when the connection is torn down.

* `Claims`: the lease of the agent was claimed over this connection. `KickRaised`: the call that
  stands between the claim and the session raised. `released`: the releases, in their order.
* `Ledger`: what the calls so far say about the three. One lemma for each call that touches them.
* `Owed`: the session remembers the claim, or the kick raised. Every event keeps it.
* `claim_released_iff`: the teardown releases what was claimed, exactly where no kick raised.
-/

namespace Rekuest
namespace AgentProtocol

open Interleave Interleave.Prog

/-- The lease of the agent was claimed over this connection. -/
def Claims (connection : ConnectionId) (calls : List Called) (agent : AgentId) : Prop :=
  ∃ session force claim,
    ⟨.collaborator (.onAgentConnected agent (some connection) session force), .ok claim⟩ ∈ calls ∧
    claim.claimed = true

def KickRaised (calls : List Called) : Prop :=
  ∃ e, ⟨.collaborator .kickOthers, .error e⟩ ∈ calls

def Call.released? : Call → Option (AgentId × Option ConnectionId)
  | collaborator (.onAgentDisconnected agent connection) => some (agent, connection)
  | _ => none

/-- The releases, in their order. -/
def released (calls : List Called) : List (AgentId × Option ConnectionId) :=
  calls.filterMap (·.call.released?)

/-- The calls that the claim and its release consist of. -/
def Call.leases : Call → Bool
  | collaborator (.onAgentConnected ..) => true
  | collaborator .kickOthers => true
  | collaborator (.onAgentDisconnected ..) => true
  | _ => false

theorem serves_leases {c : Call} (h : c.serves = true) : c.leases = false := by
  unfold Call.leases
  split
  · cases h
  · cases h
  · cases h
  · rfl

/-! ## The ledger -/

/-- The claim and the kick that these calls hold. Nothing was released yet. -/
structure Ledger (connection : ConnectionId) (claimed : Option AgentId) (kicked : Bool)
    (calls : List Called) : Prop where
  claims : ∀ agent, Claims connection calls agent ↔ claimed = some agent
  kick : KickRaised calls ↔ kicked = true
  released : released calls = []

namespace Ledger

variable {connection : ConnectionId} {claimed : Option AgentId} {kicked : Bool}
  {calls : List Called}

theorem nil : Ledger connection none false [] :=
  ⟨by simp [Claims], by simp [KickRaised], rfl⟩

theorem append (h : Ledger connection claimed kicked calls) {more : List Called}
    (hmore : ∀ c ∈ more, c.call.leases = false) :
    Ledger connection claimed kicked (calls ++ more) where
  claims agent := by
    refine Iff.trans ?_ (h.claims agent)
    constructor
    · rintro ⟨session, force, claim, hmem, hclaim⟩
      refine ⟨session, force, claim, ?_, hclaim⟩
      rcases List.mem_append.mp hmem with hc | hc
      · exact hc
      · cases hmore _ hc
    · rintro ⟨session, force, claim, hmem, hclaim⟩
      exact ⟨session, force, claim, List.mem_append_left _ hmem, hclaim⟩
  kick := by
    refine Iff.trans ?_ h.kick
    constructor
    · rintro ⟨e, hmem⟩
      refine ⟨e, ?_⟩
      rcases List.mem_append.mp hmem with hc | hc
      · exact hc
      · cases hmore _ hc
    · rintro ⟨e, hmem⟩
      exact ⟨e, List.mem_append_left _ hmem⟩
  released := by
    have hnone : more.filterMap (·.call.released?) = [] := by
      refine List.filterMap_eq_nil_iff.mpr fun c hc => ?_
      have hc' := hmore c hc
      unfold Call.released?
      split
      · rename_i heq
        rw [heq] at hc'
        cases hc'
      · rfl
    rw [AgentProtocol.released, List.filterMap_append, hnone, List.append_nil]
    exact h.released

theorem record (h : Ledger connection claimed kicked calls) {c : Called}
    (hc : c.call.leases = false) : Ledger connection claimed kicked (calls ++ [c]) :=
  h.append fun x hx => by rwa [List.mem_singleton.mp hx]

/-- The claim raised, or was refused. -/
theorem refused (h : Ledger connection none kicked calls) {agent : AgentId}
    {session : Option SessionId} {force : Bool} {answer : Except Raised PersistBackend.LeaseClaim}
    (hanswer : ∀ claim, answer = .ok claim → claim.claimed = false) :
    Ledger connection none kicked (calls ++
      [⟨.collaborator (.onAgentConnected agent (some connection) session force), answer⟩]) where
  claims agent' := by
    refine ⟨?_, nofun⟩
    rintro ⟨session', force', claim, hmem, hclaim⟩
    rcases List.mem_append.mp hmem with hc | hc
    · exact (h.claims agent').mp ⟨session', force', claim, hc, hclaim⟩
    · cases List.mem_singleton.mp hc
      simp [hanswer claim rfl] at hclaim
  kick := by
    refine Iff.trans ?_ h.kick
    simp [KickRaised]
  released := by simpa [AgentProtocol.released, Call.released?] using h.released

theorem claim (h : Ledger connection none kicked calls) {agent : AgentId}
    {session : Option SessionId} {force : Bool} {claim : PersistBackend.LeaseClaim}
    (hclaim : claim.claimed = true) :
    Ledger connection (some agent) kicked (calls ++
      [⟨.collaborator (.onAgentConnected agent (some connection) session force), .ok claim⟩]) where
  claims agent' := by
    constructor
    · rintro ⟨session', force', claim', hmem, hclaim'⟩
      rcases List.mem_append.mp hmem with hc | hc
      · cases (h.claims agent').mp ⟨session', force', claim', hc, hclaim'⟩
      · cases List.mem_singleton.mp hc
        rfl
    · rintro ⟨⟩
      exact ⟨session, force, claim, List.mem_append_right _ List.mem_cons_self, hclaim⟩
  kick := by
    refine Iff.trans ?_ h.kick
    simp [KickRaised]
  released := by simpa [AgentProtocol.released, Call.released?] using h.released

/-- The kick, which raised or not. -/
theorem kicks (h : Ledger connection claimed false calls) (answer : Except Raised Unit) :
    Ledger connection claimed (!answer.toBool)
      (calls ++ [⟨.collaborator .kickOthers, answer⟩]) where
  claims agent := by
    refine Iff.trans ?_ (h.claims agent)
    simp [Claims]
  kick := by
    have hnot : ¬ KickRaised calls := fun hk => Bool.false_ne_true (h.kick.mp hk)
    constructor
    · rintro ⟨e, hmem⟩
      rcases List.mem_append.mp hmem with hc | hc
      · exact absurd ⟨e, hc⟩ hnot
      · cases List.mem_singleton.mp hc
        rfl
    · intro hraised
      cases answer with
      | ok _ => cases hraised
      | error e => exact ⟨e, List.mem_append_right _ List.mem_cons_self⟩
  released := by simpa [AgentProtocol.released, Call.released?] using h.released

end Ledger

/-! ## What is owed -/

/-- The session remembers the claim. Where there is none, nothing was claimed or the kick raised. -/
def Remembers (connection : ConnectionId) (claimed : Option AgentId) (kicked : Bool) :
    Option RegisteredSession → Prop
  | none => claimed.isSome = kicked
  | some session =>
    session.connectionId = connection ∧ claimed = some session.agent ∧ kicked = false

def Owed (connection : ConnectionId) (s : Connection) : Prop :=
  ∃ claimed kicked, Ledger connection claimed kicked s.calls ∧
    Remembers connection claimed kicked s.session

variable {connection : ConnectionId}

theorem Owed.recordAll {s : Connection} (h : Owed connection s) {calls : List Called}
    (hcalls : ∀ c ∈ calls, c.call.leases = false) : Owed connection (s.recordAll calls) := by
  obtain ⟨claimed, kicked, hledger, hsession⟩ := h
  exact ⟨claimed, kicked, hledger.append hcalls, hsession⟩

theorem Owed.record {s : Connection} (h : Owed connection s) {c : Call} {answer : c.Ans}
    (hc : c.leases = false) : Owed connection (s.record c answer) := by
  obtain ⟨claimed, kicked, hledger, hsession⟩ := h
  exact ⟨claimed, kicked, hledger.record hc, hsession⟩

/-- An attempt on its way to the claim. -/
structure Unclaimed (connection : ConnectionId) (s : Connection) : Prop where
  session : s.session = none
  ledger : Ledger connection none false s.calls

theorem Unclaimed.record {s : Connection} (h : Unclaimed connection s) {c : Call}
    {answer : c.Ans} (hc : c.leases = false) : Unclaimed connection (s.record c answer) :=
  ⟨h.session, h.ledger.record hc⟩

theorem Unclaimed.owed {s : Connection} (h : Unclaimed connection s) : Owed connection s :=
  ⟨none, false, h.ledger, by rw [h.session]; rfl⟩

/-- The claim was refused. -/
theorem Unclaimed.refused {s : Connection} (h : Unclaimed connection s) {agent : AgentId}
    {session : Option SessionId} {force : Bool} {claim : PersistBackend.LeaseClaim}
    (hclaim : claim.claimed = false) :
    Unclaimed connection (s.record
      (.collaborator (.onAgentConnected agent (some connection) session force)) (.ok claim)) :=
  ⟨h.session, h.ledger.refused (by rintro _ ⟨⟩; exact hclaim)⟩

/-- The claim raised. -/
theorem Unclaimed.refused_error {s : Connection} (h : Unclaimed connection s) {agent : AgentId}
    {session : Option SessionId} {force : Bool} (e : Raised) :
    Unclaimed connection (s.record
      (.collaborator (.onAgentConnected agent (some connection) session force)) (.error e)) :=
  ⟨h.session, h.ledger.refused (by rintro _ ⟨⟩)⟩

/-- A call on the way to the claim, which may raise and end the attempt. -/
theorem Unclaimed.await {s : Connection} (h : Unclaimed connection s) {α : Type}
    {c : Collaborator} (hc : (Call.collaborator c).leases = false) {f : c.Result → Protocol α}
    (hf : ∀ a, Unclaimed connection (s.record (.collaborator c) (.ok a)) →
      wp Connection.exec anyStep (f a) (fun _ s' => Owed connection s')
        (s.record (.collaborator c) (.ok a))) :
    wp Connection.exec anyStep ((await c).bind f) (fun _ s' => Owed connection s') s :=
  wp_await (fun _ => (h.record hc).owed) fun a => hf a (h.record hc)

/-- A program with no call of the lease leaves what is owed. -/
theorem Owed.serves {s : Connection} (h : Owed connection s) {α : Type} {p : Protocol α}
    (hp : p.Issues fun c : Call => c.serves = true) :
    wp Connection.exec anyStep p (fun _ s' => Owed connection s') s :=
  wp_recordAll serves_writesField hp fun _ _ hcalls =>
    h.recordAll fun c hc => serves_leases (hcalls c hc)

theorem Owed.transport {s : Connection} (h : Owed connection s) {α : Type} {p : Protocol α}
    (hp : p.Issues fun c : Call => c.isTransport = true) :
    wp Connection.exec anyStep p (fun _ s' => Owed connection s') s :=
  h.serves (hp.mono isTransport_serves)

/-- A call of a collaborator that is none of the lease. -/
theorem Owed.await {s : Connection} (h : Owed connection s) {α : Type} {c : Collaborator}
    (hc : (Call.collaborator c).leases = false) {f : c.Result → Protocol α}
    (hf : ∀ a, Owed connection (s.record (.collaborator c) (.ok a)) →
      wp Connection.exec anyStep (f a) (fun _ s' => Owed connection s')
        (s.record (.collaborator c) (.ok a))) :
    wp Connection.exec anyStep ((await c).bind f) (fun _ s' => Owed connection s') s :=
  wp_await (fun _ => h.record hc) fun a => hf a (h.record hc)

/-- The last steps: the session is there, whatever of `Init` and the loops is done. -/
theorem wp_init {s : Connection} {session : RegisteredSession} {m : Outbound} {agent : AgentId}
    (hledger : Ledger connection (some session.agent) false s.calls)
    (hconnection : session.connectionId = connection) :
    wp Connection.exec anyStep
      ((perform (.setSession session)).bind fun _ => (sendToAgentMessage m).bind fun _ =>
        (await (.createTask .listen agent)).bind fun _ => await (.createTask .heartbeat agent))
      (fun _ s' => Owed connection s') s := by
  intro i _
  have howed : Owed connection (Connection.exec i (.setSession session) s).2 :=
    ⟨some session.agent, false, hledger.record rfl, hconnection, rfl, rfl⟩
  refine howed.await rfl fun _ howed => howed.await rfl fun _ howed => ?_
  exact wp_call fun _ => howed.record rfl

/-- The steps after the claim: the kick, where it displaced somebody, and the session. -/
theorem wp_claimed {s : Connection} {displaced : Bool} {session : RegisteredSession} {m : Outbound}
    {agent : AgentId} (hledger : Ledger connection (some session.agent) false s.calls)
    (hnone : s.session = none) (hconnection : session.connectionId = connection) :
    wp Connection.exec anyStep
      (do
        if displaced then await .kickOthers
        perform (.setSession session)
        sendToAgentMessage m
        await (.createTask .listen agent)
        await (.createTask .heartbeat agent))
      (fun _ s' => Owed connection s') s := by
  cases displaced with
  | false =>
    simp only [Bool.false_eq_true, if_false]
    exact wp_init hledger hconnection
  | true =>
    simp only [if_true]
    refine wp_await (fun e => ?_) fun _ => wp_init (hledger.kicks (.ok _)) hconnection
    have hsession : (s.record (.collaborator .kickOthers) (.error e)).session = none := hnone
    exact ⟨some session.agent, true, hledger.kicks (.error e), by rw [hsession]; rfl⟩

/-- Every end of the first registration: what was claimed is remembered, or the kick raised. -/
theorem wp_onRegister_owed {register : Register} {s : Connection} (h : Unclaimed connection s) :
    wp Connection.exec anyStep (onRegister connection register)
      (fun _ s' => Owed connection s') s := by
  refine h.await rfl fun agent h => ?_
  cases hb : agent.blocked with
  | true =>
    simp only [if_true]
    exact h.owed.transport closeWith_issues
  | false =>
    simp only [Bool.false_eq_true, if_false]
    refine h.await rfl fun caller h => h.await rfl fun _ h => h.await rfl fun _ h => ?_
    refine wp_await (fun e => ?_) fun claim => ?_
    · exact (h.refused_error e).owed
    cases hc : claim.claimed with
    | false =>
      simp only [Bool.not_false, if_true]
      exact (h.refused hc).owed.transport
        (.bind sendToAgentMessage_issues fun _ => closeWith_issues)
    | true =>
      simp only [Bool.not_true, Bool.false_eq_true, if_false]
      exact wp_claimed (h.ledger.claim hc) h.session rfl

/-! ## Frames -/

section

variable {codec : Codec} {str : Raised → String}

/-- Before a registration was received nothing was claimed. -/
theorem unclaimed_of_fresh {s : Connection} (hinv : Inv s)
    (hfresh : s.receivedInitialPayload = false) : Unclaimed connection s := by
  obtain ⟨hnone, htransport⟩ := hinv.fresh hfresh
  refine ⟨hnone, ?_⟩
  have hledger : Ledger connection none false ([] ++ s.calls) := Ledger.nil.append fun c hc =>
    serves_leases (isTransport_serves _ (htransport c hc))
  rwa [List.nil_append] at hledger

theorem wp_handleMessage_owed {m : FromAgentMessage} {s : Connection} (h : Owed connection s)
    (hinv : Inv s) :
    wp Connection.exec anyStep (handleMessage str connection m)
      (fun _ s' => Owed connection s') s := by
  intro i _
  show wp _ _ (if (!s.receivedInitialPayload) = true then _ else _) _ s
  cases hreceived : s.receivedInitialPayload with
  | false =>
    simp only [Bool.not_false, if_true]
    have hunclaimed : Unclaimed connection s := unclaimed_of_fresh hinv hreceived
    cases m with
    | register register =>
      intro i _
      have hstill : Unclaimed connection { s with receivedInitialPayload := true } :=
        ⟨hunclaimed.session, hunclaimed.ledger⟩
      exact wp_onRegister_owed hstill
    | _ => exact h
  | true =>
    simp only [Bool.not_true, Bool.false_eq_true, if_false]
    intro i _
    cases hsession : s.session with
    | none =>
      simp only [Connection.exec, hsession, ret_bind]
      exact h.transport closeWith_issues
    | some session =>
      simp only [Connection.exec, hsession, ret_bind]
      refine wp_mono ?_ wp_dispatch
      rintro r s' ⟨calls, hcalls, rfl⟩
      refine h.recordAll fun c hc => ?_
      rcases List.mem_cons.mp hc with rfl | hc
      · rfl
      · exact serves_leases (hcalls c hc)

theorem receive_owed {s : Connection} (h : Owed connection s) (hinv : Inv s) (f : Frame) :
    Owed connection (s.receive codec str connection f) := by
  suffices hwp : wp Connection.exec anyStep (AgentProtocol.receive codec str connection f.text)
      (fun _ s' => Owed connection s') s from wp_run hwp meets_any
  cases hm : codec.decode f.text with
  | none => exact h.transport (receive_of_decode_none hm)
  | some m =>
    rw [receive_of_decode hm]
    refine wp_exceptException.mpr (wp_mono ?_ (wp_handleMessage_owed h hinv))
    intro r s' h'
    cases r with
    | ok a => exact h'
    | error e => exact ⟨fun _ => h'.transport closeWith_issues, fun _ => h'⟩

theorem next_owed {s : Connection} (hinv : Inv s) (h : Owed connection s) (e : Event) :
    Owed connection (s.next codec str connection e) := by
  cases e with
  | frame f => exact receive_owed h hinv f
  | ping answers =>
    obtain ⟨calls, hserves, _, heq⟩ := beat_cases ping_issues answers s
    rw [Connection.next, heq]
    exact h.recordAll fun c hc => serves_leases (hserves c hc)
  | unanswered answers =>
    obtain ⟨calls, hserves, _, heq⟩ := beat_cases timedOut_issues answers s
    rw [Connection.next, heq]
    exact h.recordAll fun c hc => serves_leases (hserves c hc)

variable (codec str connection)

theorem afterEvents_owed (events : List Event) :
    Owed connection (afterEvents codec str connection events) :=
  (afterEvents_induction ⟨none, false, .nil, rfl⟩ (fun _ e hinv h => next_owed hinv h e) events).2

end

/-! ## Results -/

theorem released_record (s : Connection) (c : Call) (answer : c.Ans) :
    released (s.record c answer).calls = released s.calls ++ c.released?.toList := by
  simp only [released, Connection.record, List.filterMap_append, List.filterMap_cons,
    List.filterMap_nil]
  cases c.released? <;> rfl

/-- The teardown releases the lease of the session, if there is one. -/
theorem shutdown_released (s : Connection) (answers : Nat → Answers) :
    released (s.shutdown answers).calls = released s.calls ++
      (s.session.map fun session => (session.agent, some session.connectionId)).toList := by
  suffices h : wp Connection.exec anyStep shutdown (fun _ s' => released s'.calls =
      released s.calls ++ (s.session.map fun session =>
        (session.agent, some session.connectionId)).toList) s from wp_run h meets_any
  intro i _
  cases hs : s.session with
  | none =>
    simp only [Connection.exec, hs, ret_bind]
    refine wp_call fun answer => ?_
    rw [released_record]
    simp [Call.released?]
  | some session =>
    simp only [Connection.exec, hs, ret_bind]
    intro i₁ _ i₂ _
    show wp _ _ _ _ ((s.record (.cancelTask .listen) ()).record (.cancelTask .heartbeat) ())
    -- the two loops are cancelled, then the lease is released
    have hreleased : ∀ answer, released (((s.record (.cancelTask .listen) ()).record
        (.cancelTask .heartbeat) ()).record (.collaborator (.onAgentDisconnected session.agent
          (some session.connectionId))) answer).calls =
        released s.calls ++ [(session.agent, some session.connectionId)] := by
      intro answer
      simp [released_record, Call.released?]
    refine wp_await (fun e => hreleased _) fun _ => wp_call fun answer => ?_
    rw [released_record, hreleased]
    simp [Call.released?]

/-- **Every claim is released.** A lease that was claimed over the connection is released by its
teardown, once and under its own id, exactly where displacing the others did not raise. -/
theorem claim_released_iff (codec : Codec) (str : Raised → String) (connection : ConnectionId)
    (events : List Event) (answers : Nat → Answers) :
    (∀ agent, Claims connection (afterEvents codec str connection events).calls agent →
      released ((afterEvents codec str connection events).shutdown answers).calls =
        [(agent, some connection)]) ↔
    ¬ KickRaised (afterEvents codec str connection events).calls := by
  obtain ⟨claimed, kicked, hledger, hsession⟩ :=
    afterEvents_owed connection codec str events
  rw [shutdown_released, hledger.released, hledger.kick]
  simp only [hledger.claims]
  cases hs : (afterEvents codec str connection events).session with
  | none =>
    rw [hs] at hsession
    cases kicked with
    | false =>
      have hnone : claimed = none := by simpa [Remembers] using hsession
      simp [hnone]
    | true =>
      obtain ⟨agent, hagent⟩ := Option.isSome_iff_exists.mp hsession
      simp [hagent]
  | some session =>
    rw [hs] at hsession
    obtain ⟨hconnection, hagent, hkicked⟩ := hsession
    subst hkicked
    simp [hagent, hconnection]

/-- The lease is claimed from an incumbent, whose connections cannot be told to close. -/
def kickFails : Answers
  | .authenticator _ => .ok ⟨1, false⟩
  | .getOrCreateCallerId _ => .ok 1
  | .registerCaller _ => .ok ()
  | .registerConnection _ => .ok ()
  | .onAgentConnected .. => .ok { claimed := true, epoch := some 2, displacedIncumbent := true }
  | .kickOthers => .error (.exception "the channel layer is down")
  | .close _ => .ok ()
  | _ => .error .cancelledError

/-- The registration claims the lease and fails, and the teardown releases nothing. -/
theorem claim_kept : Claims 1 (afterEvents registerCodec (fun _ => "") 1
      [.frame ⟨some "", fun _ => kickFails⟩]).calls 1 ∧
    released ((afterEvents registerCodec (fun _ => "") 1
      [.frame ⟨some "", fun _ => kickFails⟩]).shutdown fun _ => kickFails).calls = [] := by
  constructor
  · exact ⟨none, false, { claimed := true, epoch := some 2, displacedIncumbent := true },
      List.mem_of_getElem? (i := 4) rfl, rfl⟩
  · rfl

end AgentProtocol
end Rekuest
