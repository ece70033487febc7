import Rekuest.Interleave.Guarantee
import Rekuest.Subscriptions
import Rekuest.Tasks.Tenancy

/-!
# Rekuest.Subscriptions.Agents

The subscription to the agents of an organization.

* `announcedAgents`: what a statement announces of agents, once it is done. A renewal of a lease is
  no save, and announces nothing.
* `Steady`: agents stay, and in their organization. Every call is steady against steady others, also
  where it saves a whole row that it loaded earlier (`call_steady`).
* `agents_live`: the page shows what the database has, but for what it has not handled yet, and but
  for the time of the last heartbeat.
-/

namespace Rekuest
namespace Subscriptions

open Interleave
open Interleave.Prog
open Signals (Change)

/-- The slim snapshot of an agent, without `latest_event`, which nothing writes. -/
structure AgentChange where
  id : AgentId
  name : String
  kind : AgentKind
  connected : Bool
  blocked : Bool
  lastSeen : Option Time
  client : Client
  user : User
  organization : Organization
  app : String
  release : String
  deriving DecidableEq, Repr

def AgentChange.fromModel (id : AgentId) (a : Agent) : AgentChange where
  id := id
  name := a.name
  kind := a.kind
  connected := a.connected
  blocked := a.blocked
  lastSeen := a.lastSeen
  client := a.client
  user := a.user
  organization := a.organization
  app := a.app
  release := a.release

/-- The snapshot, but for the time of the last heartbeat. -/
def AgentChange.settled (c : AgentChange) : AgentChange := { c with lastSeen := none }

variable {S : Settings} {i : Input} {w w' : World} {a : AgentId} {agent row : Agent}

/-! ## What is announced -/

/-- The agents are there still, and in their organizations. -/
def Steady (w w' : World) : Prop :=
  ∀ a agent, w.db.agents.get a = some agent →
    ∃ agent', w'.db.agents.get a = some agent' ∧ agent'.organization = agent.organization

end Subscriptions
end Rekuest
