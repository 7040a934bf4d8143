import Runkite.BindArgs

/-!
# The policy engine

`Engine.evaluate` is one uncached evaluation : static grants, then predicates over the arguments
of a tool call, then the webhook, whose reply is a parameter, then the default effect.
`Engine.decide` answers from the decision cache where it can and stores what it evaluates unless
that is pending. `Engine.policyDecide` turns an allowed tool call into a pending one where a
mandatory rule asks for it; this comes after the cache.

The cache is keyed by the stage, the names of the caller and the tool, and the digest of the
arguments, joined by NUL (`cacheKey`).
-/

open Binary64 (Decimal)
open Json (Members Number Value)
open Strings (atoi contains split trimSpace)

namespace Runkite

/-! ## Inputs and decisions -/

inductive Stage where
  | connectorSession
  | toolCall
  | runCreate
deriving DecidableEq, Repr

def Stage.text : Stage → String
  | .connectorSession => "connector.session"
  | .toolCall => "tool.call"
  | .runCreate => "run.create"

inductive Effect where
  | allow
  | deny
  | pending
deriving DecidableEq, Repr

def Effect.ofText : String → Option Effect
  | "allow" => some .allow
  | "deny" => some .deny
  | "pending" => some .pending
  | _ => none

structure PolicyInput where
  stage : Stage
  tenantId : String
  principal : String
  agentId : String
  runId : String
  generation : ℤ
  connector : String
  tool : String
  /-- The full arguments, numbers kept as literals. -/
  args : Option (Value Decimal)
  argsMeta : Option (Members Decimal)
  argsDigest : String

structure PolicyDecision where
  effect : Effect
  reason : String := ""
  reasonCode : String := ""
  ruleId : String := ""
deriving DecidableEq, Repr

/-! ## Static grants -/

structure ToolFilter where
  allow : List String
  deny : List String

structure Grant where
  id : String
  tenantId : String
  agentId : String
  connector : String
  tools : Option ToolFilter

/-- Deny wins; a list of allowed tools must contain the tool unless it is empty. -/
def toolAllowed : Option ToolFilter → String → Bool
  | none, _ => true
  | some filter, tool => tool ∉ filter.deny && (filter.allow.isEmpty || tool ∈ filter.allow)

def Grant.covers (i : PolicyInput) (g : Grant) : Bool :=
  trimSpace g.tenantId = trimSpace i.tenantId && trimSpace g.agentId = trimSpace i.agentId &&
    trimSpace g.connector = trimSpace i.connector

/-- `Static.decide` : the first grant that covers the input decides. -/
def staticDecide (grants : List Grant) (i : PolicyInput) : PolicyDecision :=
  match grants.find? (Grant.covers i) with
  | none =>
    { effect := .deny, reason := "no grant for tenant/agent/connector",
      reasonCode := "policy_no_grant" }
  | some g =>
    if i.stage = .toolCall && (trimSpace i.tool = "" || !toolAllowed g.tools (trimSpace i.tool)) then
      { effect := .deny, reason := "tool not allowed by grant", reasonCode := "policy_tool_denied",
        ruleId := g.id }
    else { effect := .allow, reason := "matched grant", ruleId := g.id }

/-! ## Predicates -/

inductive PredicateOp where
  | eq
  | neq
  | gt
  | gte
  | lt
  | lte
  | isIn
  | contains
  | present
deriving DecidableEq, Repr

/-- A predicate as `ValidatePredicate` leaves it. -/
structure Predicate where
  id : String
  tenantId : String
  agentId : String
  connector : String
  tool : String
  path : String
  op : PredicateOp
  value : Value Number
  effect : Effect
  reason : String
  reasonCode : String

/-- Members by name, items by index. -/
def lookupSegments {ν : Type} : List String → Value ν → Option (Value ν)
  | [], v => some v
  | seg :: segs, v =>
    if seg = "" then none
    else
      match v with
      | .object ms => (ms.lookup seg).bind (lookupSegments segs)
      | .array vs =>
        match atoi seg with
        | some n => if n < 0 then none else vs[n.toNat]?.bind (lookupSegments segs)
        | none => none
      | _ => none

def lookupPath {ν : Type} (root : Value ν) (path : String) : Option (Value ν) :=
  lookupSegments (split '.' path) root

/-- The exact value of a number in memory. -/
def exact (n : Number) : Option ℚ := n.encode.map Decimal.toRat

/-- `valuesEqual` of an argument and a value of the configuration. Numbers at the top are equal
if they denote the same number; below, only two literals can be. -/
def valuesEqual : Value Decimal → Value Number → Bool
  | .number d, .number n => exact n = some d.toRat
  | .number _, _ => false
  | _, .number _ => false
  | a, b => a.equalWith (fun d n => Number.equal (.literal d) n) b

/-- The order of two numbers; anything else has none. -/
def compareNumbers : Value Decimal → Value Number → Option Ordering
  | .number d, .number n => (exact n).map fun q => compare d.toRat q
  | _, _ => none

/-- Whether an argument that is present meets the predicate's condition. -/
def Predicate.test (p : Predicate) (got : Value Decimal) : Bool :=
  match p.op with
  | .eq => valuesEqual got p.value
  | .neq => !valuesEqual got p.value
  | .gt => (compareNumbers got p.value).any fun o => o = .gt
  | .gte => (compareNumbers got p.value).any fun o => o ≠ .lt
  | .lt => (compareNumbers got p.value).any fun o => o = .lt
  | .lte => (compareNumbers got p.value).any fun o => o ≠ .gt
  | .isIn =>
    match p.value with
    | .array items => items.any (valuesEqual got)
    | _ => false
  | .contains =>
    match got, p.value with
    | .string s, .string sub => contains s sub
    | .array items, v => items.any fun item => valuesEqual item v
    | _, _ => false
  | .present => true

/-- The full arguments, or the display copy where there are none. -/
def predicateArgs (i : PolicyInput) : Value Decimal :=
  match i.args, i.argsMeta with
  | some v, _ => v
  | none, some ms => .object ms
  | none, none => .object []

/-- `evalPredicate` : an argument that is missing does not match. -/
def Predicate.matchesArgs (p : Predicate) (args : Value Decimal) : Bool :=
  (lookupPath args p.path).any p.test

def Predicate.matchesScope (p : Predicate) (i : PolicyInput) : Bool :=
  p.tenantId = trimSpace i.tenantId && p.connector = trimSpace i.connector &&
    (p.agentId = "" || p.agentId = trimSpace i.agentId) &&
    (p.tool = "" || p.tool = trimSpace i.tool)

def Predicate.decision (p : Predicate) : PolicyDecision where
  effect := p.effect
  reason := if p.reason = "" then "denied by argument predicate" else p.reason
  reasonCode :=
    if p.reasonCode = "" then
      if p.effect = .pending then "policy_pending" else "policy_predicate"
    else p.reasonCode
  ruleId := p.id

/-- The decisions of the predicates that match. -/
def matchedPredicates (rules : List Predicate) (i : PolicyInput) : List PolicyDecision :=
  (rules.filter fun p => p.matchesScope i && p.matchesArgs (predicateArgs i)).map
    Predicate.decision

/-- The first denial, or else the first pending. -/
def applyPredicates (rules : List Predicate) (i : PolicyInput) : Option PolicyDecision :=
  if i.stage ≠ .toolCall then none
  else
    ((matchedPredicates rules i).find? fun d => d.effect = .deny).or
      ((matchedPredicates rules i).find? fun d => d.effect = .pending)

/-! ## The webhook -/

/-- What comes back from the webhook : a failure of the exchange, or a response. -/
inductive WebhookReply where
  | failed (reason : String)
  | response (allow : Option Bool) (effect reason reasonCode ruleId : String)
deriving DecidableEq, Repr

def webhookFail (failClosed : Bool) (reason : String) : PolicyDecision :=
  if failClosed then
    { effect := .deny, reason := reason, reasonCode := "policy_webhook_failed" }
  else { effect := .allow, reason := "webhook error ignored (fail_open): " ++ reason }

/-- `Webhook.Decide`. -/
def webhookDecide (failClosed : Bool) : WebhookReply → PolicyDecision
  | .failed reason => webhookFail failClosed reason
  | .response allow effect reason reasonCode ruleId =>
    let text :=
      match effect, allow with
      | "", some true => "allow"
      | "", some false => "deny"
      | _, _ => effect
    if text = "" then webhookFail failClosed "policy webhook response missing allow/effect"
    else
      match Effect.ofText text with
      | none => webhookFail failClosed "policy webhook response has invalid effect"
      | some e =>
        { effect := e
          reason := reason
          reasonCode :=
            if reasonCode = "" then
              match e with
              | .deny => "policy_webhook_deny"
              | .pending => "policy_pending"
              | .allow => ""
            else reasonCode
          ruleId := ruleId }

/-! ## The engine -/

structure MandatoryHITLRule where
  id : String
  tenantId : String
  agentId : String
  connector : String
  tools : List String

/-- The configuration of an engine that is enabled. -/
structure Engine where
  /-- `none` if no grant is configured. -/
  static : Option (List Grant)
  predicates : List Predicate
  webhook : Bool
  mandatoryHITL : List MandatoryHITLRule
  caching : Bool
  defaultEffect : Effect
  failClosed : Bool

namespace Engine

variable (e : Engine)

/-- The static layer : the denial that it ends with, or what it allows. -/
def staticLayer (i : PolicyInput) : Except PolicyDecision (Option PolicyDecision) :=
  match e.static with
  | none => .ok none
  | some grants =>
    let dec := staticDecide grants i
    if dec.effect = .deny then
      if dec.reasonCode = "policy_no_grant" && e.defaultEffect = .allow && !e.webhook then
        .ok (some { effect := .allow, reason := "default allow (no matching grant)" })
      else .error dec
    else .ok (some dec)

/-- No grants, and pending is a denial. -/
def decideRunCreate (reply : WebhookReply) : PolicyDecision :=
  if e.webhook then
    let dec := webhookDecide e.failClosed reply
    match dec.effect with
    | .pending =>
      { effect := .deny, reason := "run.create does not support pending",
        reasonCode := "policy_admission_deny", ruleId := dec.ruleId }
    | .deny =>
      if dec.reasonCode = "" then { dec with reasonCode := "policy_admission_deny" } else dec
    | .allow => dec
  else { effect := .allow, reason := "run.create admitted" }

/-- The layers, without the cache. -/
def evaluate (i : PolicyInput) (reply : WebhookReply) : PolicyDecision :=
  if i.stage = .runCreate then e.decideRunCreate reply
  else
    match e.staticLayer i with
    | .error dec => dec
    | .ok staticAllow =>
      match applyPredicates e.predicates i with
      | some dec => dec
      | none =>
        if e.webhook then
          let dec := webhookDecide e.failClosed reply
          match dec.effect with
          | .pending => if dec.reasonCode = "" then { dec with reasonCode := "policy_pending" } else dec
          | .deny => dec
          | .allow =>
            match staticAllow with
            | some s => { dec with ruleId := s.ruleId, reason := s.reason }
            | none => dec
        else
          match staticAllow with
          | some s => s
          | none =>
            if e.defaultEffect = .allow then { effect := .allow, reason := "default allow" }
            else
              { effect := e.defaultEffect, reason := "no matching policy grant",
                reasonCode := "policy_default_deny" }

end Engine

/-! ## The decision cache -/

/-- Decisions by key, the last one stored first. -/
abbrev DecisionCache := List (String × PolicyDecision)

def nul : Char := '\x00'

/-- The separator between the parts of a key. -/
def sep : String := String.singleton nul

def cacheKey (i : PolicyInput) : String :=
  i.stage.text ++ (sep ++ (i.tenantId ++ (sep ++ (i.agentId ++ (sep ++ (i.principal ++ (sep ++
    (i.connector ++ (sep ++ (i.tool ++ (sep ++ i.argsDigest)))))))))))

namespace DecisionCache

def get (c : DecisionCache) (key : String) : Option PolicyDecision := c.lookup key

def put (c : DecisionCache) (key : String) (dec : PolicyDecision) : DecisionCache :=
  (key, dec) :: c.filter fun entry => entry.1 ≠ key

/-- Entries go when they expire or the cache is full. -/
def evict (c : DecisionCache) (kept : String → Bool) : DecisionCache :=
  c.filter fun entry => kept entry.1

end DecisionCache

namespace Engine

variable (e : Engine)

def missingBinding (i : PolicyInput) : Bool := trimSpace i.tenantId = "" || trimSpace i.agentId = ""

/-- The denial of an input without a tenant or an agent, which is not cached. -/
def missingBindingDecision : PolicyDecision where
  effect := .deny
  reason := "policy requires tenant_id and agent_id from the run assignment"
  reasonCode := "policy_missing_binding"

/-- The cached decision for an input. -/
def hit (i : PolicyInput) (cache : DecisionCache) : Option PolicyDecision :=
  if e.caching then cache.get (cacheKey i) else none

/-- The input is evaluated, that is, answered neither by the binding check nor by the cache. -/
def evaluates (i : PolicyInput) (cache : DecisionCache) : Bool :=
  !missingBinding i && (e.hit i cache).isNone

/-- `decide`. Every layer stores the decision that it returns, unless it is pending. -/
def decide (i : PolicyInput) (reply : WebhookReply) (cache : DecisionCache) :
    PolicyDecision × DecisionCache :=
  if missingBinding i then (missingBindingDecision, cache)
  else
    match e.hit i cache with
    | some dec => (dec, cache)
    | none =>
      let dec := e.evaluate i reply
      (dec, if e.caching && dec.effect ≠ .pending then cache.put (cacheKey i) dec else cache)

def mandatoryToolMatch (tools : List String) (tool : String) : Bool :=
  if tools.isEmpty then tool ≠ "" else tools.any fun t => trimSpace t = tool

/-- A rule for the agent wins over one for the whole tenant. -/
def matchMandatoryHITL (i : PolicyInput) : Option MandatoryHITLRule :=
  let rules := e.mandatoryHITL.filter fun r =>
    trimSpace r.tenantId = trimSpace i.tenantId && trimSpace r.connector = trimSpace i.connector &&
      mandatoryToolMatch r.tools (trimSpace i.tool)
  (rules.find? fun r => trimSpace r.agentId ≠ "" && trimSpace r.agentId = trimSpace i.agentId).or
    (rules.find? fun r => trimSpace r.agentId = "")

/-- Only an allowed tool call is changed. -/
def applyMandatoryHITL (i : PolicyInput) (dec : PolicyDecision) : PolicyDecision :=
  if i.stage ≠ .toolCall || dec.effect ≠ .allow then dec
  else
    match e.matchMandatoryHITL i with
    | none => dec
    | some rule =>
      { effect := .pending
        reason := "mandatory HITL for tool"
        reasonCode := "mandatory_hitl"
        ruleId := if trimSpace rule.id = "" then "mandatory_hitl" else trimSpace rule.id }

/-- `Decide`. -/
def policyDecide (i : PolicyInput) (reply : WebhookReply) (cache : DecisionCache) :
    PolicyDecision × DecisionCache :=
  let (dec, cache) := e.decide i reply cache
  (e.applyMandatoryHITL i dec, cache)

/-- `Decide` without a cache. -/
def uncached (i : PolicyInput) (reply : WebhookReply) : PolicyDecision :=
  e.applyMandatoryHITL i
    (if missingBinding i then missingBindingDecision else e.evaluate i reply)

/-- With nothing cached, a decision is the uncached one. -/
theorem policyDecide_nil (i : PolicyInput) (reply : WebhookReply) :
    (e.policyDecide i reply []).1 = e.uncached i reply := by
  have hhit : e.hit i [] = none := by
    unfold hit DecisionCache.get
    split_ifs <;> rfl
  unfold policyDecide decide uncached
  rw [hhit]
  split_ifs <;> rfl

theorem mem_of_hit {e : Engine} {i : PolicyInput} {cache : DecisionCache} {dec : PolicyDecision}
    (h : e.hit i cache = some dec) : (cacheKey i, dec) ∈ cache := by
  unfold hit at h
  split_ifs at h
  obtain ⟨_, _, hcache, -⟩ := List.lookup_eq_some_iff.1 h
  rw [hcache]
  exact List.mem_append_right _ List.mem_cons_self

/-- A decision is the denial of an input without a binding, comes from the cache, or is evaluated
and stored unless it is pending. -/
theorem decide_cases (i : PolicyInput) (reply : WebhookReply) (cache : DecisionCache) :
    missingBinding i ∧ e.decide i reply cache = (missingBindingDecision, cache) ∨
    missingBinding i = false ∧ (∃ dec, e.hit i cache = some dec ∧ (cacheKey i, dec) ∈ cache ∧
      e.decide i reply cache = (dec, cache)) ∨
    missingBinding i = false ∧ e.hit i cache = none ∧ (∃ cache',
      (∀ entry ∈ cache', entry ∈ cache ∨ entry = (cacheKey i, e.evaluate i reply)) ∧
      e.decide i reply cache = (e.evaluate i reply, cache')) := by
  unfold decide
  cases hbinding : missingBinding i with
  | true => exact .inl ⟨rfl, rfl⟩
  | false =>
    cases hhit : e.hit i cache with
    | some dec => exact .inr (.inl ⟨rfl, dec, rfl, mem_of_hit hhit, rfl⟩)
    | none =>
      refine .inr (.inr ⟨rfl, rfl, _, ?_, rfl⟩)
      intro entry hentry
      split_ifs at hentry
      · rcases List.mem_cons.1 hentry with rfl | hold
        · exact .inr rfl
        · exact .inl (List.mem_filter.1 hold).1
      · exact .inl hentry

end Engine

end Runkite
