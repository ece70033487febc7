import Rekuest.Models.Rows

/-!
# Rekuest.AgentQueue

The redis queue of an agent, and the connections that drain it. `broadcast` is here no more than
its `push`.

* `Redis`: the lists of the redis server, with the three commands that the queue issues.
* `push`, `pop`, `ack`: `RedisAgentQueue`.
* `listenForTasks`: one step of the loop of a connection, between two of its awaits.
* `step`, `runs`: producers and connections in any order, and connections that are cut.
-/

namespace Rekuest
namespace AgentQueue

/-- A serialized message: the text of a JSON object, never empty. -/
abbrev Frame := { text : String // text ≠ "" }

/-- The keys `{agent_id}_my_queue` and `{agent_id}_processing`. -/
inductive Key where
  | queue (agent : AgentId)
  | processing (agent : AgentId)
  deriving DecidableEq

/-- The lists of the server. The head is the left end. -/
abbrev Redis := Key → List Frame

namespace Redis

variable (r : Redis)

def set (k : Key) (l : List Frame) : Redis := fun k' => if k' = k then l else r k'

/-- `LPUSH k m`. -/
def lpush (k : Key) (m : Frame) : Redis := r.set k (m :: r k)

/-- `BLMOVE src dest RIGHT LEFT`: `none` where `src` is empty and the command blocks. -/
def blmove (src dest : Key) : Option (Frame × Redis) :=
  (r src).getLast?.map fun m => (m, (r.set src (r src).dropLast).lpush dest m)

/-- `LREM k 0 m`. -/
def lrem (k : Key) (m : Frame) : Redis := r.set k ((r k).filter (· ≠ m))

end Redis

def push (r : Redis) (agent : AgentId) (m : Frame) : Redis := r.lpush (.queue agent) m

def pop (r : Redis) (agent : AgentId) : Option (Frame × Redis) :=
  r.blmove (.queue agent) (.processing agent)

def ack (r : Redis) (agent : AgentId) (m : Frame) : Redis := r.lrem (.processing agent) m

/-- Where a connection stands in `listen_for_tasks`: before the pop, before the send, before the
ack. -/
inductive Phase where
  | popping
  | sending (m : Frame)
  | acking (m : Frame)
  deriving DecidableEq

structure State where
  redis : Redis
  listening : ConnectionId → Option (AgentId × Phase)
  /-- What was pushed so far, in order. -/
  pushed : List (AgentId × Frame)
  /-- What was handed to the connections' sends so far, in order. -/
  sent : List (AgentId × Frame)

namespace State

def setPhase (s : State) (c : ConnectionId) (phase : Option (AgentId × Phase)) : State :=
  { s with listening := fun c' => if c' = c then phase else s.listening c' }

def pushedTo (s : State) (a : AgentId) : List Frame :=
  (s.pushed.filter fun m => m.1 = a).map (·.2)

def sentTo (s : State) (a : AgentId) : List Frame :=
  (s.sent.filter fun m => m.1 = a).map (·.2)

/-- Nothing was pushed yet, and nobody listens. -/
def empty : State := ⟨fun _ => [], fun _ => none, [], []⟩

end State

/-- The next step of the loop of a connection; `none` where it waits or does not listen. A frame is
not empty, so it is always sent. -/
def listenForTasks (s : State) (c : ConnectionId) : Option State :=
  match s.listening c with
  | none => none
  | some (agent, .popping) =>
    (pop s.redis agent).map fun (m, redis) =>
      { s with redis := redis }.setPhase c (some (agent, .sending m))
  | some (agent, .sending m) =>
    some ({ s with sent := s.sent ++ [(agent, m)] }.setPhase c (some (agent, .acking m)))
  | some (agent, .acking m) =>
    some ({ s with redis := ack s.redis agent m }.setPhase c (some (agent, .popping)))

inductive Event where
  | push (agent : AgentId) (m : Frame)
  /-- A session starts its loop. -/
  | listen (c : ConnectionId) (agent : AgentId)
  | run (c : ConnectionId)
  /-- The loop is cancelled, or its process crashes. -/
  | cut (c : ConnectionId)
  deriving DecidableEq

def step (s : State) : Event → Option State
  | .push agent m =>
    some { s with redis := push s.redis agent m, pushed := s.pushed ++ [(agent, m)] }
  | .listen c agent =>
    if (s.listening c).isNone then some (s.setPhase c (some (agent, .popping))) else none
  | .run c => listenForTasks s c
  | .cut c => some (s.setPhase c none)

/-- The events one after the other, each where it can happen. -/
def runs : State → List Event → Option State
  | s, [] => some s
  | s, e :: events => (step s e).bind fun s => runs s events

/-! ## Steps -/

variable {s s' : State} {a b : AgentId} {c d : ConnectionId} {m : Frame} {e : Event} {r : Redis}

@[simp] theorem setPhase_self {p : Option (AgentId × Phase)} :
    (s.setPhase c p).listening c = p := if_pos rfl

theorem setPhase_of_ne {p : Option (AgentId × Phase)} (h : d ≠ c) :
    (s.setPhase c p).listening d = s.listening d := if_neg h

@[simp] theorem push_queue : push r a m (.queue a) = m :: r (.queue a) := if_pos rfl

theorem push_queue_of_ne (h : b ≠ a) : push r a m (.queue b) = r (.queue b) :=
  if_neg fun hk => h (Key.queue.inj hk)

@[simp] theorem push_processing : push r a m (.processing b) = r (.processing b) := by
  simp [push, Redis.lpush, Redis.set]

@[simp] theorem ack_queue : ack r a m (.queue b) = r (.queue b) := by
  simp [ack, Redis.lrem, Redis.set]

@[simp] theorem ack_processing :
    ack r a m (.processing a) = (r (.processing a)).filter (· ≠ m) := if_pos rfl

theorem ack_processing_of_ne (h : b ≠ a) : ack r a m (.processing b) = r (.processing b) :=
  if_neg fun hk => h (Key.processing.inj hk)

/-- What a pop takes, and what it leaves. -/
theorem pop_eq_some {r' : Redis} (h : pop r a = some (m, r')) :
    r (.queue a) = r' (.queue a) ++ [m] ∧ r' (.processing a) = m :: r (.processing a) ∧
      ∀ b, b ≠ a → r' (.queue b) = r (.queue b) ∧ r' (.processing b) = r (.processing b) := by
  obtain ⟨x, hlast, hx⟩ := Option.map_eq_some_iff.mp h
  obtain ⟨rfl, rfl⟩ := Prod.mk.inj hx
  refine ⟨?_, ?_, fun b hb => ⟨?_, ?_⟩⟩
  · have hqueue : ((r.set (.queue a) (r (.queue a)).dropLast).lpush (.processing a) x)
        (.queue a) = (r (.queue a)).dropLast := by
      simp [Redis.lpush, Redis.set]
    rw [hqueue]
    exact (List.dropLast_append_getLast? x hlast).symm
  · simp [Redis.lpush, Redis.set]
  · simp [Redis.lpush, Redis.set, hb]
  · simp [Redis.lpush, Redis.set, hb]

/-- The steps of a connection. -/
inductive Ran (c : ConnectionId) (s : State) : State → Prop where
  | pop (agent : AgentId) (m : Frame) (redis : Redis)
    (at_pop : s.listening c = some (agent, .popping)) (took : pop s.redis agent = some (m, redis)) :
    Ran c s ({ s with redis := redis }.setPhase c (some (agent, .sending m)))
  | send (agent : AgentId) (m : Frame) (at_send : s.listening c = some (agent, .sending m)) :
    Ran c s ({ s with sent := s.sent ++ [(agent, m)] }.setPhase c (some (agent, .acking m)))
  | ack (agent : AgentId) (m : Frame) (at_ack : s.listening c = some (agent, .acking m)) :
    Ran c s ({ s with redis := ack s.redis agent m }.setPhase c (some (agent, .popping)))

theorem ran_of_run (h : step s (.run c) = some s') : Ran c s s' := by
  simp only [step, listenForTasks] at h
  cases hc : s.listening c with
  | none => rw [hc] at h; cases h
  | some p =>
    obtain ⟨agent, phase⟩ := p
    rw [hc] at h
    cases phase with
    | popping =>
      obtain ⟨⟨m, redis⟩, htook, rfl⟩ := Option.map_eq_some_iff.mp h
      exact .pop agent m redis hc htook
    | sending m => cases h; exact .send agent m hc
    | acking m => cases h; exact .ack agent m hc

theorem runs_cons {events : List Event} (h : runs s (e :: events) = some s') :
    ∃ s₁, step s e = some s₁ ∧ runs s₁ events = some s' :=
  Option.bind_eq_some_iff.mp h

theorem pushedTo_append {l : List (AgentId × Frame)} (h : s'.pushed = s.pushed ++ l) :
    s'.pushedTo a = s.pushedTo a ++ (l.filter fun m => m.1 = a).map (·.2) := by
  simp [State.pushedTo, h]

theorem sentTo_append {l : List (AgentId × Frame)} (h : s'.sent = s.sent ++ l) :
    s'.sentTo a = s.sentTo a ++ (l.filter fun m => m.1 = a).map (·.2) := by
  simp [State.sentTo, h]

end AgentQueue
end Rekuest
