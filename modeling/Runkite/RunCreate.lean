import Runkite.BudgetCaps

/-!
# Requests to create a run

The body of a create request, the two rewrites of the agent it names, and the comparison of
a request with a stored run that decides whether it is a retry.

A name can be an alias, which stands for one of several agents picked at random by weight
(`AliasResolver.resolve`). The agent it stands for is then replaced by a cheaper one when a
budget is nearly spent (`applyFinOpsRouting`). `Server.route` is both in a row, with the
record of the name that was asked for. `fingerprintMismatch` compares a request with a run;
`createRunCtx` writes the routed agent back into the request, so the same function is
applied to requests before and after the rewrite.
-/

open Json (Members Number Text Value)

namespace Runkite

/-! ## The request -/

/-- What to do about a thread that does not exist. -/
inductive IfNotExists where
  | unset
  | create
  | other
deriving DecidableEq, Repr

/-- The body of a create request. Members that are JSON are absent or a document, as the
decoder of the request leaves them; strings that are absent are empty. -/
structure RunCreate where
  runId : String := ""
  /-- The `thread_id` of the body, or the thread of the path. -/
  threadId : String := ""
  agentId : String := ""
  assistantId : String := ""
  input : Option (Value Binary64.Decimal) := none
  config : Option (Value Binary64.Decimal) := none
  ifNotExists : IfNotExists := .unset
  /-- There is a resume command, given as such or inside `command`. -/
  resume : Bool := false
  parentRunId : Option String := none
  /-- The simulation header. -/
  simulation : Bool := false

/-- The raw text of an optional member. -/
def rawText : Option (Value Binary64.Decimal) → Text
  | some v => .document v
  | none => .empty

/-- The agent a request names; `assistant_id` stands in for an absent `agent_id`. -/
def RunCreate.agent (req : RunCreate) : String :=
  if req.agentId = "" then req.assistantId else req.agentId

/-! ## Aliases -/

/-- The targets of every alias, with their weights. -/
structure AliasResolver where
  targets : List (String × List (String × ℤ)) := []
  weighted : ∀ entry ∈ targets, entry.2 ≠ [] ∧ ∀ t ∈ entry.2, 0 < t.2 := by simp

/-- The target on which a number below the sum of the weights falls. -/
def pickTarget : List (String × ℤ) → ℤ → Option String
  | [], _ => none
  | (agentId, weight) :: ts, pick =>
    if pick < weight then some agentId else pickTarget ts (pick - weight)

/-- `Resolve`, with the random number it draws. The second component says whether the name
is an alias. -/
def AliasResolver.resolve (r : AliasResolver) (agentId : String) (rand : ℕ) : String × Bool :=
  match r.targets.lookup agentId with
  | none => (agentId, false)
  | some list =>
    let total := (list.map Prod.snd).sum
    ((pickTarget list (rand % total)).getD ((list.head?.map Prod.fst).getD ""), true)

/-- The name is a configured alias. -/
def AliasResolver.isAlias (r : AliasResolver) (agentId : String) : Bool :=
  (r.targets.lookup agentId).isSome

theorem AliasResolver.resolve_snd (r : AliasResolver) (agentId : String) (rand : ℕ) :
    (r.resolve agentId rand).2 = r.isAlias agentId := by
  unfold resolve isAlias
  cases r.targets.lookup agentId <;> rfl

/-- The routing section of the budget configuration. -/
structure FinOpsRouting where
  enabled : Bool := false
  softPct : ℚ := 0
  aliases : List (String × List String) := []

/-- The agent that is run instead when a budget is nearly spent, by the name that was asked for or
else by the agent. -/
def FinOpsRouting.target? (routing : FinOpsRouting) (agentId aliasKey : String) : Option String :=
  if !routing.enabled || routing.aliases.isEmpty then none
  else
    let targets := ([aliasKey, agentId].filter fun key => key ≠ "").findSome? fun key =>
      (routing.aliases.lookup key).filter fun ts => ts ≠ []
    targets.bind List.head?

/-! ## The server -/

/-- The configuration the handlers read. -/
structure Server where
  aliases : AliasResolver := {}
  routing : FinOpsRouting := {}
  budgets : Budgets := {}
  /-- The threshold of the alerts. -/
  alertsSoftPct : ℚ := 0
  dialect : Dialect := {}
  a2aMaxDepth : ℤ := 0
  a2aMaxBreadth : ℤ := 0

def Server.a2aMaxDepthOrDefault (srv : Server) : ℤ :=
  if srv.a2aMaxDepth ≤ 0 then 10 else srv.a2aMaxDepth

def Server.a2aMaxBreadthOrDefault (srv : Server) : ℤ :=
  if srv.a2aMaxBreadth ≤ 0 then 20 else srv.a2aMaxBreadth

def Server.routingSoftPct (srv : Server) : ℚ :=
  if 0 < srv.routing.softPct then srv.routing.softPct
  else if 0 < srv.alertsSoftPct then srv.alertsSoftPct else 80

/-- `applyFinOpsRouting`, with what the usage store answers : the agent to run, and the one it
replaces or the empty string. Without a usage store nothing is answered. -/
def Server.applyFinOpsRouting (srv : Server) (sums : String → UsageSums)
    (tenantId agentId aliasKey : String) : String × String :=
  match srv.routing.target? agentId aliasKey with
  | none => (agentId, "")
  | some target =>
    if srv.budgets.near srv.routingSoftPct sums tenantId agentId then (target, agentId)
    else (agentId, "")

/-- The name to record if a name is an alias. -/
def Server.aliasKey (srv : Server) (agentId : String) : String :=
  if srv.aliases.isAlias agentId then agentId else ""

/-- Alias resolution and then budget routing : the agent to run, and the name to record as
the one that was asked for. -/
def Server.route (srv : Server) (rand : ℕ) (sums : String → UsageSums) (tenantId agentId : String) :
    String × String :=
  let (resolved, wasAlias) := srv.aliases.resolve agentId rand
  let requestedAlias := if wasAlias then agentId else ""
  match srv.applyFinOpsRouting sums tenantId resolved requestedAlias with
  | (routed, replaced) =>
    if replaced ≠ "" then (routed, if requestedAlias = "" then replaced else requestedAlias)
    else (resolved, requestedAlias)

/-- Budget routing puts this agent in the place of another. -/
def Server.Reroutes (srv : Server) (sums : String → UsageSums)
    (tenantId agentId aliasKey target : String) : Prop :=
  agentId ≠ "" ∧ srv.routing.target? agentId aliasKey = some target ∧
    srv.budgets.NearlySpent srv.routingSoftPct sums tenantId agentId

theorem Server.route_eq_iff {srv : Server} {rand : ℕ} {sums : String → UsageSums}
    {tenantId name picked agent : String} (hpicked : (srv.aliases.resolve name rand).1 = picked) :
    (srv.route rand sums tenantId name).1 = agent ↔
      srv.Reroutes sums tenantId picked (srv.aliasKey name) agent ∨
        (∀ target, ¬ srv.Reroutes sums tenantId picked (srv.aliasKey name) target) ∧
          picked = agent := by
  simp only [route, applyFinOpsRouting, AliasResolver.resolve_snd, hpicked, Reroutes, ← Budgets.near_iff]
  rw [← aliasKey]
  cases srv.routing.target? picked (srv.aliasKey name) with
  | none => simp
  | some target =>
    cases srv.budgets.near srv.routingSoftPct sums tenantId picked with
    | false => simp
    | true => by_cases hempty : picked = "" <;> simp [hempty]

/-! ## Retries -/

/-- What a request can disagree about with the run that has its id. -/
inductive Mismatch where
  | agent
  | thread
  | input
deriving DecidableEq, Repr

def Mismatch.reason : Mismatch → String
  | .agent => "run_id reused with a different agent"
  | .thread => "run_id reused with a different thread"
  | .input => "run_id reused with different input"

/-- `run.Metadata["requested_alias"]` if it is a string. -/
def Run.requestedAlias (r : Run) : String := r.metadata.string "requested_alias"

/-- Only what the request sets is compared. -/
def fingerprintMismatch (srv : Server) (run : Run) (req : RunCreate) (effectiveThreadId : String) :
    Option Mismatch :=
  if req.agent ≠ "" ∧ (if srv.aliases.isAlias req.agent then run.requestedAlias ≠ req.agent
      else run.agentId ≠ req.agent) then some .agent
  else if effectiveThreadId ≠ "" ∧ run.threadId ≠ effectiveThreadId then some .thread
  else if req.input.isSome ∧ Json.deepEqual run.input (rawText req.input) = false then some .input
  else none

/-- The answer to a request whose fingerprint differs. -/
def Mismatch.conflict (runId : String) (m : Mismatch) : StoreError :=
  .conflict "run" runId m.reason

end Runkite
