import Runkite.PendingStore
import Runkite.PolicyEngine

/-!
# The gate in front of connector tools

`toolsCall` is the MCP proxy's handling of one `tools/call` : break-glass, the policy decision,
the use of an approval, and otherwise the recording of a pending action. The other requests that
evaluate policy or touch approvals are here as well : the mint of a connector session, the
creation of a run, the governance endpoint, the operator's approval, which evaluates the policy
again on the stored display copy of the arguments, and the denial.

`Gate.step` handles one request after another. The engine is enabled and its configuration does
not change. Entries of the decision cache may go at any time (`evict`). `evaluated` is a history
variable : the inputs that were evaluated, each with the webhook's reply.
-/

open Binary64 (Decimal)
open Json (Members Text Value)
open Strings (trimSpace)
open Transaction (query write)

namespace Runkite

/-! ## State and environment -/

structure BreakGlassWindow where
  id : String
  tenantId : String
  /-- Empty for the whole tenant. -/
  agentId : String
  startsAt : String
  expiresAt : String

/-- The condition of `FindActiveBreakGlass`. -/
def BreakGlassWindow.covers (now tenantId agentId : String) (w : BreakGlassWindow) : Bool :=
  w.tenantId = tenantId && (w.agentId = agentId || w.agentId = "") && w.startsAt ≤ now &&
    now < w.expiresAt

structure Gate where
  cache : DecisionCache
  pending : PendingTable
  windows : List BreakGlassWindow
  evaluated : List (PolicyInput × WebhookReply)

structure GateConfig where
  engine : Engine
  sha256 : Sha256

/-- What the handling of a request depends on besides the state. -/
structure GateEnv where
  now : String := ""
  reply : WebhookReply := .failed ""
  /-- The keys dropped from the display copy for its size. -/
  oversize : List String := []
  /-- The random part of an action's id. -/
  suffix : String := ""
  /-- The break-glass lookup and its audit row succeed. -/
  audited : Bool := true
  /-- The rate limit of the agent. -/
  limited : Bool := false
  /-- The clock and the driver of each statement, in order. -/
  call : ℕ → StoreCall := fun _ => {}

/-- The identity of a run that a runner acts for. -/
structure RunBinding where
  runId : String
  generation : ℤ
  tenantId : String
  agentId : String
  /-- The identity of the run's user, empty if there is none. -/
  identity : String

/-- What an approval for the input is bound to. -/
def PolicyInput.scope (i : PolicyInput) : CallScope where
  tenantId := i.tenantId
  agentId := i.agentId
  runId := i.runId
  generation := i.generation
  connector := i.connector
  tool := i.tool
  argsDigest := i.argsDigest

namespace Gate

variable (cfg : GateConfig) (env : GateEnv)

/-! ## Policy -/

/-- `Decide`, with its history. -/
def decide (i : PolicyInput) (s : Gate) : PolicyDecision × Gate :=
  let (dec, cache) := cfg.engine.policyDecide i env.reply s.cache
  (dec, { s with
    cache := cache
    evaluated :=
      if cfg.engine.evaluates i s.cache then s.evaluated ++ [(i, env.reply)] else s.evaluated })

/-- `tryBreakGlassBypass`. -/
def bypassed (i : PolicyInput) (s : Gate) : Bool :=
  env.audited && s.windows.any (BreakGlassWindow.covers env.now i.tenantId i.agentId)

/-- The decision and whether it denies. -/
def checkConnectorPolicy (i : PolicyInput) (s : Gate) : (PolicyDecision × Bool) × Gate :=
  if s.bypassed env i then
    (({ effect := .allow, reason := "break-glass window active", reasonCode := "break_glass" },
      false), s)
  else
    let (dec, s) := s.decide cfg env i
    ((dec, dec.effect ≠ .allow), s)

/-! ## Approvals -/

/-- `ConsumeApprovedAction`, its statements one after the other. -/
def consumeApprovedAction (scope : CallScope) (t : PendingTable) : Option String × PendingTable :=
  let (c, t) := (Consumption.start scope).next (env.call 0) t
  let (c, t) := c.next (env.call 1) t
  (c.consumed?, t)

def tryConsumePendingCapability (i : PolicyInput) (s : Gate) : Bool × Gate :=
  if i.runId = "" then (false, s)
  else
    let (id, t) := consumeApprovedAction env i.scope s.pending
    (id.isSome, { s with pending := t })

/-- `CreatePendingAction`, its statements one after the other. -/
def createPendingAction (a : NewAction) (t : PendingTable) :
    Except StoreError String × PendingTable :=
  let (c, t) := Creation.next cfg.sha256 (env.call 2) ⟨a, (env.call 2).now, .find⟩ t
  let (c, t) := c.next cfg.sha256 (env.call 3) t
  let (c, t) := c.next cfg.sha256 (env.call 4) t
  let (c, t) := c.next cfg.sha256 (env.call 5) t
  match c.phase with
  | .done result => (result, t)
  | _ => (.ok a.id, t)

/-- `persistPendingAction` for an input and its decision. -/
def persist (i : PolicyInput) (dec : PolicyDecision) (embedded : Bool) (s : Gate) :
    Except StoreError String × Gate :=
  let sub : Submission :=
    { scope := i.scope, args := i.argsMeta, ruleId := dec.ruleId, reason := dec.reason,
      reasonCode := dec.reasonCode, embedded := embedded, suffix := env.suffix }
  match persistPendingAction cfg.sha256 (env.call 2).time sub with
  | none => (.error (.message "pending actions require run binding"), s)
  | some a =>
    let (result, t) := createPendingAction cfg env a s.pending
    (result, { s with pending := t })

end Gate

/-! ## The proxy -/

/-- A `tools/call` on a connector session that was checked. -/
structure ToolsCall where
  binding : RunBinding
  connector : String
  tool : String
  arguments : Text

inductive ToolOutcome where
  /-- Answered by the control plane itself. -/
  | retrieved
  | invalid (message : String)
  | refused (dec : PolicyDecision) (actionId : String)
  | forwarded

def retrieveToolName : String := "runkite_retrieve_payload"

namespace ToolsCall

variable (cfg : GateConfig) (env : GateEnv)

/-- The input of the policy decision; arguments that are not an object or ambiguous have none. -/
def input (req : ToolsCall) : Option PolicyInput :=
  match req.arguments with
  | .empty | .document (.object _) =>
    (bindArgsStrict cfg.sha256 env.oversize req.arguments).map fun b =>
      { stage := .toolCall
        tenantId := req.binding.tenantId
        principal := req.binding.identity
        agentId := req.binding.agentId
        runId := req.binding.runId
        generation := req.binding.generation
        connector := req.connector
        tool := req.tool
        args := some b.args
        argsMeta := b.argsMeta
        argsDigest := b.digest }
  | _ => none

end ToolsCall

namespace Gate

variable (cfg : GateConfig) (env : GateEnv)

/-- The refusal of a call, which is recorded as pending if the decision is. -/
def refuse (i : PolicyInput) (dec : PolicyDecision) (s : Gate) : ToolOutcome × Gate :=
  if dec.effect = .pending then
    let code := if dec.reasonCode = "" then "policy_pending" else dec.reasonCode
    match s.persist cfg env i dec false with
    | (.ok id, s) => (.refused { dec with reasonCode := code } id, s)
    | (.error _, s) =>
      let reason := if dec.reason = "" then "pending approval unavailable" else dec.reason
      (.refused { dec with effect := .deny, reason := reason, reasonCode := code } "", s)
  else (.refused dec "", s)

/-- `handleProxyMCPRequest`. An approval replaces another pending result, never a denial. -/
def toolsCall (req : ToolsCall) (s : Gate) : ToolOutcome × Gate :=
  if req.tool = retrieveToolName then (.retrieved, s)
  else
    match req.input cfg env with
    | none => (.invalid "invalid or ambiguous tool arguments", s)
    | some i =>
      let ((dec, deny), s) := s.checkConnectorPolicy cfg env i
      let (approved, s) :=
        if !deny || dec.effect = .pending then s.tryConsumePendingCapability env i else (false, s)
      if deny && !approved then s.refuse cfg env i dec else (.forwarded, s)

/-! ## Other evaluations of the policy -/

/-- The mint of a connector session, or its pre-warming : the result is only a decision. -/
def connectorSession (b : RunBinding) (connector : String) (s : Gate) :
    (PolicyDecision × Bool) × Gate :=
  s.checkConnectorPolicy cfg env
    { stage := .connectorSession, tenantId := b.tenantId, principal := b.identity,
      agentId := b.agentId, runId := b.runId, generation := b.generation, connector := connector,
      tool := "", args := none, argsMeta := none, argsDigest := "" }

/-- The policy's part of the admission of a run. -/
def runCreate (b : RunBinding) (s : Gate) : (PolicyDecision × Bool) × Gate :=
  s.checkConnectorPolicy cfg env
    { stage := .runCreate, tenantId := b.tenantId, principal := b.identity, agentId := b.agentId,
      runId := b.runId, generation := 0, connector := "", tool := "", args := none,
      argsMeta := none, argsDigest := "" }

end Gate

/-! ## The governance endpoint -/

/-- `POST /governance/decide` by an authenticated caller. -/
structure GovernanceDecide where
  tenant : String
  identity : String
  tenantId : Option String
  agentId : String
  connector : String
  tool : String
  args : Text
  runId : String

inductive GovernanceResponse where
  | refused (status : ℕ) (message : String)
  | failed (e : StoreError)
  | decided (dec : PolicyDecision) (actionId : String)

def tooLongGovernanceId (s : String) : Bool := s.utf8ByteSize > 256

namespace GovernanceDecide

variable (cfg : GateConfig) (env : GateEnv)

/-- The checks before the decision, and its input. -/
def input (req : GovernanceDecide) : Except (ℕ × String) PolicyInput :=
  let agentId := trimSpace req.agentId
  let connector := trimSpace req.connector
  let tool := trimSpace req.tool
  let runId := trimSpace req.runId
  if agentId = "" || connector = "" || tool = "" then
    .error (400, "agent_id, connector, and tool are required")
  else if [agentId, connector, tool, runId].any tooLongGovernanceId then
    .error (400, "agent_id, connector, tool, and run_id must be at most 256 UTF-8 bytes")
  else if req.tenantId.any fun t => trimSpace t ≠ req.tenant then
    .error (403, "tenant_id does not match the authenticated tenant")
  else if env.limited then .error (429, "rate limit exceeded")
  else
    match bindArgsStrict cfg.sha256 env.oversize req.args with
    | none => .error (400, "invalid or ambiguous tool arguments")
    | some b =>
      .ok { stage := .toolCall, tenantId := req.tenant, principal := req.identity,
            agentId := agentId, runId := runId, generation := 0, connector := connector,
            tool := tool, args := some b.args, argsMeta := b.argsMeta, argsDigest := b.digest }

end GovernanceDecide

namespace Gate

variable (cfg : GateConfig) (env : GateEnv)

/-- A statement that cannot fail by itself, through the driver. -/
def exec (call : StoreCall) (f : PendingTable → Bool × PendingTable) (s : Gate) :
    Except StoreError Bool × Gate :=
  let (result, t) := write call.driver (fun t => .ok (f t)) s.pending
  (result, { s with pending := t })

/-- `ExpireGovernancePending`. -/
def expire (s : Gate) : Except StoreError Bool × Gate :=
  s.exec (env.call 1) fun t => t.expireGovernancePending (env.call 1).now (env.call 1).time

def writeGovernancePending (i : PolicyInput) (dec : PolicyDecision) (s : Gate) :
    GovernanceResponse × Gate :=
  if i.runId = "" then (.refused 400 "run_id is required when the decision is pending", s)
  else
    match s.expire env with
    | (.error e, s) => (.failed e, s)
    | (.ok _, s) =>
      match s.persist cfg env i dec true with
      | (.error e, s) => (.failed e, s)
      | (.ok id, s) => (.decided dec id, s)

/-- `handleGovernanceDecide`. -/
def governanceDecide (req : GovernanceDecide) (s : Gate) : GovernanceResponse × Gate :=
  match req.input cfg env with
  | .error (status, message) => (.refused status message, s)
  | .ok i =>
    let (dec, s) := s.decide cfg env i
    if dec.effect = .pending then s.writeGovernancePending cfg env i dec else (.decided dec "", s)

end Gate

/-! ## The operator -/

def currentPendingBinding (a : PendingAction) : Bool :=
  a.argsDigest ≠ "" && pendingActionIdPrefix.toList <+: a.id.toList

/-- The input of the evaluation when an action is approved : the stored display copy stands for
the arguments, under the digest of the full ones and without a principal. -/
def PendingAction.input (a : PendingAction) : PolicyInput where
  stage := .toolCall
  tenantId := a.tenantId
  principal := ""
  agentId := a.agentId
  runId := a.runId
  generation := a.generation
  connector := a.connector
  tool := a.tool
  args := some (.object ((unmarshalPendingArgs a.args).getD []))
  argsMeta := unmarshalPendingArgs a.args
  argsDigest := a.argsDigest

namespace Gate

variable (cfg : GateConfig) (env : GateEnv)

/-- The message of an update that affected no row. -/
def affected (id reason : String) : Except StoreError Bool × Gate → Except StoreError Unit × Gate
  | (.error e, s) => (.error e, s)
  | (.ok false, s) => (.error (.conflict "pending_action" id reason), s)
  | (.ok true, s) => (.ok (), s)

/-- The action under an id, which must be pending. -/
def awaiting (id : String) (s : Gate) : Except StoreError PendingAction :=
  match query (env.call 0).driver (fun t : PendingTable => t.getPendingAction id) s.pending with
  | .error e => .error e
  | .ok a =>
    if a.status ≠ .pending then .error (.message "pending action is not awaiting approval")
    else .ok a

/-- `handleAdminApprovePendingAction`. -/
def adminApprove (id decidedBy : String) (s : Gate) : Except StoreError Unit × Gate :=
  match s.awaiting env id with
  | .error e => (.error e, s)
  | .ok a =>
    if !currentPendingBinding a then
      (.error (.message "legacy argument binding; resubmit the operation for fresh approval"), s)
    else
      let (dec, s) := s.decide cfg env a.input
      if dec.effect = .deny then
        (.error (.message "policy still denies this tool call; approve refused"), s)
      else
        affected id "status changed or approval expired" (s.exec (env.call 1) fun t =>
          t.setPendingActionApproved id decidedBy (env.call 1).now (env.call 1).time)

/-- `handleAdminDenyPendingAction`. -/
def adminDeny (id : String) (s : Gate) : Except StoreError Unit × Gate :=
  match s.awaiting env id with
  | .error e => (.error e, s)
  | .ok _ =>
    affected id "status changed" (s.exec (env.call 1) fun t =>
      t.setPendingActionStatus id .pending .denied (env.call 1).now)

end Gate

/-! ## Requests -/

inductive GateEvent where
  | toolsCall (req : ToolsCall) (env : GateEnv)
  | connectorSession (b : RunBinding) (connector : String) (env : GateEnv)
  | runCreate (b : RunBinding) (env : GateEnv)
  | governanceDecide (req : GovernanceDecide) (env : GateEnv)
  /-- The poll of an action, which sweeps expired ones first. -/
  | governanceGetAction (env : GateEnv)
  | approve (id decidedBy : String) (env : GateEnv)
  | deny (id : String) (env : GateEnv)
  | openWindow (w : BreakGlassWindow)
  | closeWindow (id : String)
  | evict (kept : String → Bool)

namespace Gate

/-- Nothing decided, nothing pending. -/
def start (windows : List BreakGlassWindow) : Gate := ⟨[], .empty, windows, []⟩

def step (cfg : GateConfig) : GateEvent → Gate → Gate
  | .toolsCall req env, s => (s.toolsCall cfg env req).2
  | .connectorSession b connector env, s => (s.connectorSession cfg env b connector).2
  | .runCreate b env, s => (s.runCreate cfg env b).2
  | .governanceDecide req env, s => (s.governanceDecide cfg env req).2
  | .governanceGetAction env, s => (s.expire env).2
  | .approve id decidedBy env, s => (s.adminApprove cfg env id decidedBy).2
  | .deny id env, s => (s.adminDeny env id).2
  | .openWindow w, s => { s with windows := s.windows ++ [w] }
  | .closeWindow id, s => { s with windows := s.windows.filter fun w => w.id ≠ id }
  | .evict kept, s => { s with cache := s.cache.evict kept }

end Gate

end Runkite
