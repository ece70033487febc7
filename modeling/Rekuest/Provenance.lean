import Rekuest.Messages
import Rekuest.Settings

/-!
# Rekuest.Provenance

Minting the provenance token of a task. Everything read here (parents, callers, roles,
implementations) is the same at every moment of a task's life, so the lazy reads of the source
are one function of the database.

* `resolveRoot`: the task's root along `parent`, at most `maxLineageDepth` steps away.
* `mintTokenForTask`: the token, `none` where minting is skipped, or the refusal of a strict
  deployment.
-/

namespace Rekuest

/-- Who originates work. -/
structure CallerContext where
  user : User
  client : Option Client
  organization : Option Organization
  roles : List String := []

namespace Provenance

variable (S : Settings) (db : Database)

def maxLineageDepth : Nat := 256

def resolveRoot : Nat → TaskId → Task → TaskId × Task
  | 0, id, task => (id, task)
  | fuel + 1, id, task =>
    match task.parent with
    | none => (id, task)
    | some parent =>
      match db.tasks.get parent with
      | none => (id, task)
      | some parentTask => resolveRoot fuel parent parentTask

def isHumanByRoles (roles : List String) : Bool :=
  if S.provenance.humanRoles = [] then true
  else roles.any fun r => S.provenance.humanRoles.contains r

def rolesForCaller (caller : Caller) : List String :=
  (db.memberships.filter fun m =>
    m.user = caller.user ∧ m.organization = caller.organization).flatMap (·.roles)

def isHumanCaller (caller : Caller) : Bool :=
  S.provenance.humanRoles = [] || isHumanByRoles S (rolesForCaller db caller)

/-- The principal at the root of the task's tree, and whether it is an accountable human. -/
def rootPrincipal (root : Task) (isTop : Bool) (ctx : CallerContext) : Option String × Bool :=
  if isTop then (some ctx.user.sub, isHumanByRoles S ctx.roles)
  else match root.caller.bind db.callers.get with
    | none => (none, false)
    | some caller => (some caller.user.sub, isHumanCaller S db caller)

def mintTokenForTask (now : Time) (jti : String) (id : TaskId) (task : Task)
    (ctx : CallerContext) : Except String (Option Token) :=
  match task.implementation.bind db.implementations.get, db.agents.get task.agent with
  | some implementation, some agent =>
    if implementation.needsToken then
      let (rootId, root) := resolveRoot db maxLineageDepth id task
      let (rootCausedBy, rootHuman) := rootPrincipal S db root task.parent.isNone ctx
      if rootHuman then
        .ok (some {
          iss := S.provenance.issuer
          aud := implementation.provenanceAudience.getD []
          sub := ctx.user.sub
          actSub := agent.user.sub
          actCid := agent.client.clientId
          iat := now
          exp := now + S.provenance.tokenTtlSeconds
          jti := jti
          tsk := id
          ptk := task.parent
          rtk := rootId
          rcb := rootCausedBy
          ahs := S.argsHash (task.args.getD []) })
      else if S.provenance.strict then
        .error (s!"Refusing to mint provenance token for task {id}: root principal (root_caused_by=" ++
          rootCausedBy.getD "None" ++ ") is not an accountable human.")
      else .ok none
    else .ok none
  | _, _ => .ok none

end Provenance
end Rekuest
