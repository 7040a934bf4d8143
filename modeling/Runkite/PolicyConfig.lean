import Runkite.Overlay
import Runkite.PolicyEngine

/-!
# The rules of the policy engine

The engine starts from a configuration (`newEngine`). Grants and mandatory rules are merged from the
configuration and from overlays that can be replaced while the engine runs, one rule for each key,
the last one that comes (`mergeGrants`, `mergeMandatoryHITL`).

`decide_allow_iff` says exactly when a tool call is allowed. `mandatory_not_allowed_iff` says when a
mandatory rule is honoured : of rules with the same key only the last one is in force, whatever their
tools (`shadowed_rule_allowed`).
-/

open Json (Number Value)
open Strings (toLower trimSpace)

namespace Runkite

open Engine

/-! ## Predicates -/

/-- A row of `policy.predicates`. -/
structure PredicateRow where
  id : String
  tenantId : String
  agentId : String := ""
  connector : String
  tool : String := ""
  path : String
  op : String
  value : Value Number := .null
  effect : String
  reason : String := ""
  reasonCode : String := ""

def PredicateOp.ofText : String → Option PredicateOp
  | "eq" => some .eq
  | "neq" => some .neq
  | "gt" => some .gt
  | "gte" => some .gte
  | "lt" => some .lt
  | "lte" => some .lte
  | "in" => some .isIn
  | "contains" => some .contains
  | "exists" => some .present
  | _ => none

def isSlice : Value Number → Bool
  | .array _ => true
  | _ => false

/-- `ValidatePredicate`; why a row is refused is only logged. -/
def validatePredicate (row : PredicateRow) : Option Predicate :=
  let id := trimSpace row.id
  let tenantId := trimSpace row.tenantId
  let connector := trimSpace row.connector
  let path := trimSpace row.path
  if id = "" || tenantId = "" || connector = "" || path = "" then none
  else
    match PredicateOp.ofText (toLower (trimSpace row.op)),
      Effect.ofText (toLower (trimSpace row.effect)) with
    | some op, some effect =>
      if effect = .allow || (op = .isIn && !isSlice row.value) then none
      else some
        { id := id
          tenantId := tenantId
          agentId := trimSpace row.agentId
          connector := connector
          tool := trimSpace row.tool
          path := path
          op := op
          value := row.value
          effect := effect
          reason := trimSpace row.reason
          reasonCode := trimSpace row.reasonCode }
    | _, _ => none

/-! ## Merging -/

/-- The tenant, the agent and the connector that a rule is for. -/
structure RuleKey where
  tenant : String
  agent : String
  connector : String
deriving DecidableEq

def Grant.key (g : Grant) : RuleKey :=
  ⟨trimSpace g.tenantId, trimSpace g.agentId, trimSpace g.connector⟩

/-- The names that a rule for the call has. -/
def PolicyInput.ruleKey (i : PolicyInput) : RuleKey :=
  ⟨trimSpace i.tenantId, trimSpace i.agentId, trimSpace i.connector⟩

theorem Grant.covers_eq (i : PolicyInput) (g : Grant) :
    Grant.covers i g = decide (g.key = i.ruleKey) := by
  rw [Bool.eq_iff_iff, decide_eq_true_eq, Grant.covers, Grant.key, PolicyInput.ruleKey,
    RuleKey.mk.injEq]
  simp [and_assoc]

/-- Grants with a blank part of the key are skipped. -/
def Grant.complete (g : Grant) : Bool :=
  g.key.tenant ≠ "" && g.key.agent ≠ "" && g.key.connector ≠ ""

def mergeGrants (baseline overlays : List Grant) : List Grant :=
  Overlay.merge Grant.key ((baseline ++ overlays).filter Grant.complete)

def MandatoryHITLRule.key (r : MandatoryHITLRule) : RuleKey :=
  ⟨trimSpace r.tenantId, trimSpace r.agentId, trimSpace r.connector⟩

/-- A blank agent is a rule for the whole tenant. -/
def MandatoryHITLRule.complete (r : MandatoryHITLRule) : Bool :=
  r.key.tenant ≠ "" && r.key.connector ≠ ""

def mergeMandatoryHITL (baseline overlays : List MandatoryHITLRule) : List MandatoryHITLRule :=
  Overlay.merge MandatoryHITLRule.key ((baseline ++ overlays).filter MandatoryHITLRule.complete)

/-! ## The engine -/

/-- The `policy` section. -/
structure PolicyConfig where
  defaultEffect : String := ""
  failClosed : Option Bool := none
  cacheTTL : ℤ := 0
  grants : List Grant := []
  /-- The grants of the database at the start. -/
  overlays : List Grant := []
  mandatoryHITL : List MandatoryHITLRule := []
  predicates : List PredicateRow := []
  /-- The URL of the webhook. -/
  webhook : Option String := none
  forceEnable : Bool := false

def hasURL (webhook : Option String) : Bool := webhook.any fun url => trimSpace url ≠ ""

/-- Anything but "allow" is a denial. -/
def effectOrDeny (text : String) : Effect :=
  if toLower (trimSpace text) = "allow" then .allow else .deny

namespace PolicyConfig

variable (cfg : PolicyConfig)

def validPredicates : List Predicate := cfg.predicates.filterMap validatePredicate

def hasWebhook : Bool := hasURL cfg.webhook

def effect : Effect := effectOrDeny cfg.defaultEffect

end PolicyConfig

/-- There is a cache if its entries live for some time. -/
def hasCache (ttl : ℤ) : Bool := 0 < ttl

/-- There is no static layer without grants. -/
def newStatic : List Grant → Option (List Grant)
  | [] => none
  | g :: grants => some (g :: grants)

/-- An engine that runs, with the overlays in force. -/
structure LiveEngine where
  config : PolicyConfig
  overlays : List Grant
  mandatoryHITLOverlays : List MandatoryHITLRule

/-- `New` : there is no engine if nothing is configured. -/
def newEngine (cfg : PolicyConfig) : Option LiveEngine :=
  if cfg.grants.isEmpty && cfg.overlays.isEmpty && !cfg.hasWebhook && cfg.mandatoryHITL.isEmpty &&
      cfg.validPredicates.isEmpty && !cfg.forceEnable then none
  else some ⟨cfg, cfg.overlays, []⟩

namespace LiveEngine

variable (e : LiveEngine)

def replaceOverlays (overlays : List Grant) : LiveEngine := { e with overlays := overlays }

def replaceMandatoryHITL (overlays : List MandatoryHITLRule) : LiveEngine :=
  { e with mandatoryHITLOverlays := overlays }

def grants : List Grant := mergeGrants e.config.grants e.overlays

/-- What a decision reads. -/
def engine : Engine where
  static := newStatic e.grants
  predicates := e.config.validPredicates
  webhook := hasURL e.config.webhook
  mandatoryHITL := mergeMandatoryHITL e.config.mandatoryHITL e.mandatoryHITLOverlays
  caching := hasCache e.config.cacheTTL
  defaultEffect := effectOrDeny e.config.defaultEffect
  failClosed := e.config.failClosed.getD true

end LiveEngine

/-- A row decides if it is the last with the names of the call. -/
theorem find?_mergeGrants (baseline overlays : List Grant) (i : PolicyInput) :
    (mergeGrants baseline overlays).find? (Grant.covers i) =
      Log.latest (fun g => Grant.covers i g && g.complete) (baseline ++ overlays) := by
  have hcovers : Grant.covers i = fun g => decide (g.key = i.ruleKey) :=
    funext fun g => Grant.covers_eq i g
  rw [hcovers, mergeGrants, Overlay.find?_merge, Log.latest, List.filter_filter, Log.latest]

/-- The last row of the overlays with the names of the call decides it, and without one the last of
the baseline. The tools are those of that row, its deny list first. -/
theorem effective_grant (baseline overlays : List Grant) (i : PolicyInput) :
    let row := Log.latest fun g : Grant => decide (g.key = i.ruleKey) && g.complete
    let deciding := (row overlays).or (row baseline)
    let dec := staticDecide (mergeGrants baseline overlays) i
    (mergeGrants baseline overlays).find? (Grant.covers i) = deciding ∧
    (deciding = none → dec.effect = .deny ∧ dec.reasonCode = "policy_no_grant") ∧
    ∀ g, deciding = some g → dec.ruleId = g.id ∧ (dec.effect = .allow ↔ i.stage = .toolCall →
      trimSpace i.tool ≠ "" ∧ ∀ filter, g.tools = some filter → trimSpace i.tool ∉ filter.deny ∧
        (filter.allow = [] ∨ trimSpace i.tool ∈ filter.allow)) := by
  have hfind := find?_mergeGrants baseline overlays i
  rw [Log.latest, List.filter_append, List.getLast?_append] at hfind
  conv at hfind =>
    rhs
    simp only [Grant.covers_eq]
  refine ⟨hfind, fun hnone => ?_, fun g hg => ?_⟩
  · simp [staticDecide, hfind.trans hnone]
  · have hallowed : (∀ filter, g.tools = some filter → trimSpace i.tool ∉ filter.deny ∧
        (filter.allow = [] ∨ trimSpace i.tool ∈ filter.allow)) ↔
          toolAllowed g.tools (trimSpace i.tool) := by
      cases g.tools <;> simp [toolAllowed]
    simp only [staticDecide, hfind.trans hg, hallowed]
    split_ifs with h <;> simpa [or_iff_not_imp_left] using h

/-! ## Mandatory rules -/

/-- The call is one that the rule is for. -/
def MandatoryHITLRule.covers (r : MandatoryHITLRule) (i : PolicyInput) : Bool :=
  r.key.tenant = trimSpace i.tenantId && r.key.connector = trimSpace i.connector &&
    (r.key.agent = "" || r.key.agent = trimSpace i.agentId) &&
    Engine.mandatoryToolMatch r.tools (trimSpace i.tool)

variable {r : MandatoryHITLRule} {baseline overlays : List MandatoryHITLRule} {i : PolicyInput}

section Mandatory

variable {e : Engine}

theorem MandatoryHITLRule.covers_iff : r.covers i ↔
    (trimSpace r.tenantId = trimSpace i.tenantId ∧ trimSpace r.connector = trimSpace i.connector) ∧
      (trimSpace r.agentId = "" ∨ trimSpace r.agentId = trimSpace i.agentId) ∧
      mandatoryToolMatch r.tools (trimSpace i.tool) := by
  simp only [MandatoryHITLRule.covers, Bool.and_eq_true, Bool.or_eq_true, decide_eq_true_eq,
    and_assoc]
  rfl

/-- Some rule is found if there is one for the call, with the agent's name or with none. -/
theorem isSome_matchMandatoryHITL : (e.matchMandatoryHITL i).isSome ↔
    ∃ r ∈ e.mandatoryHITL, r.covers i := by
  unfold matchMandatoryHITL
  rw [Option.isSome_or, Bool.or_eq_true, List.find?_isSome, List.find?_isSome]
  simp only [List.mem_filter, MandatoryHITLRule.covers_iff, Bool.and_eq_true, decide_eq_true_eq]
  constructor
  · rintro (⟨r, ⟨hr, hnames, htool⟩, -, hagent⟩ | ⟨r, ⟨hr, hnames, htool⟩, hagent⟩)
    · exact ⟨r, hr, hnames, .inr hagent, htool⟩
    · exact ⟨r, hr, hnames, .inl hagent, htool⟩
  · rintro ⟨r, hr, hnames, hagent, htool⟩
    by_cases hblank : trimSpace r.agentId = ""
    · exact .inr ⟨r, ⟨hr, hnames, htool⟩, hblank⟩
    · exact .inl ⟨r, ⟨hr, hnames, htool⟩, hblank, hagent.resolve_left hblank⟩

/-- An allowed call stays allowed where no mandatory rule is for it. -/
theorem applyMandatoryHITL_allow (hstage : i.stage = .toolCall) (dec : PolicyDecision) :
    (e.applyMandatoryHITL i dec).effect = .allow ↔
      dec.effect = .allow ∧ ∀ r ∈ e.mandatoryHITL, r.covers i = false := by
  have hnone : e.matchMandatoryHITL i = none ↔ ∀ r ∈ e.mandatoryHITL, r.covers i = false := by
    rw [← Option.not_isSome_iff_eq_none, isSome_matchMandatoryHITL]
    simp
  unfold applyMandatoryHITL
  by_cases hallow : dec.effect = .allow
  · rw [if_neg (by simp [hstage, hallow]), ← hnone]
    cases e.matchMandatoryHITL i <;> simp [hallow]
  · rw [if_pos (by simp [hallow])]
    simp [hallow]

end Mandatory

/-- The rule comes last among those of the list with its key. -/
def LastOfKey (r : MandatoryHITLRule) (rules : List MandatoryHITLRule) : Prop :=
  ∃ front back, rules = front ++ r :: back ∧ ∀ r' ∈ back, r'.key ≠ r.key

/-- An overlay rule is for the call, or a rule of the configuration whose key no overlay uses. -/
def LiveEngine.Mandated (e : LiveEngine) (i : PolicyInput) : Prop :=
  ∃ r, r.covers i = true ∧ (r ∈ e.mandatoryHITLOverlays ∨
    r ∈ e.config.mandatoryHITL ∧ ∀ r' ∈ e.mandatoryHITLOverlays, r'.key ≠ r.key)

/-- The layers below the mandatory rules. -/
def Engine.withoutMandatory (e : Engine) : Engine := { e with mandatoryHITL := [] }

theorem Engine.decide_withoutMandatory (e : Engine) (reply : WebhookReply) (cache : DecisionCache) :
    e.withoutMandatory.decide i reply cache = e.decide i reply cache := rfl

/-- A call that a mandatory rule is for is not allowed exactly if it would not be allowed anyway, or
the call is one for the last rule with some key, among those with a tenant and a connector. -/
theorem mandatory_not_allowed_iff (e : LiveEngine) (i : PolicyInput) (hstage : i.stage = .toolCall)
    (reply : WebhookReply) (cache : DecisionCache) :
    (e.Mandated i → (e.engine.policyDecide i reply cache).1.effect ≠ .allow) ↔
    (e.Mandated i → (e.engine.withoutMandatory.policyDecide i reply cache).1.effect ≠ .allow ∨
      ∃ r, LastOfKey r ((e.config.mandatoryHITL ++ e.mandatoryHITLOverlays).filter
        MandatoryHITLRule.complete) ∧ r.covers i = true) := by
  refine imp_congr_right fun _ => ?_
  have hbelow : (e.engine.withoutMandatory.policyDecide i reply cache).1.effect = .allow ↔
      (e.engine.decide i reply cache).1.effect = .allow := by
    rw [Engine.policyDecide, applyMandatoryHITL_allow hstage, Engine.decide_withoutMandatory]
    exact and_iff_left fun r hr => by cases hr
  have hrules : ∀ r, LastOfKey r ((e.config.mandatoryHITL ++ e.mandatoryHITLOverlays).filter
      MandatoryHITLRule.complete) ↔ r ∈ e.engine.mandatoryHITL :=
    fun r => Overlay.mem_merge_iff.symm
  simp only [ne_eq, hbelow, hrules]
  rw [Engine.policyDecide, applyMandatoryHITL_allow hstage, not_and_or]
  simp

/-- A call of one of the tools of a connector. -/
def mailInput (tool : String) : PolicyInput where
  stage := .toolCall
  tenantId := "acme"
  principal := ""
  agentId := "bot"
  runId := "r"
  generation := 1
  connector := "mail"
  tool := tool
  args := some (.object [])
  argsMeta := none
  argsDigest := ""

/-- A mandatory rule of the tenant for one tool. -/
def mailRule (tool : String) : MandatoryHITLRule :=
  { id := tool, tenantId := "acme", agentId := "", connector := "mail", tools := [tool] }

/-- An engine that allows by default. -/
def openEngine (overlays : List MandatoryHITLRule) : LiveEngine :=
  ⟨{ defaultEffect := "allow", forceEnable := true }, [], overlays⟩

theorem mandatory_not_allowed_delete :
    ((openEngine [mailRule "send", mailRule "delete"]).engine.policyDecide (mailInput "delete")
      (.failed "") []).1.effect ≠ .allow :=
  (mandatory_not_allowed_iff (openEngine [mailRule "send", mailRule "delete"])
    (mailInput "delete") rfl (.failed "") []).2
    (fun _ => .inr ⟨mailRule "delete", ⟨[mailRule "send"], [],
      List.filter_eq_self.2 (by decide +kernel), fun _ h => by cases h⟩, by decide +kernel⟩)
    ⟨mailRule "delete", by decide +kernel, .inl (by simp [openEngine])⟩

/-- Two overlay rules for one connector, one for each tool. Only the second is in force, and a call
that the first is for is allowed. -/
theorem shadowed_rule_allowed :
    let e := openEngine [mailRule "send", mailRule "delete"]
    mailRule "send" ∈ e.mandatoryHITLOverlays ∧ (mailRule "send").covers (mailInput "send") = true ∧
      (e.engine.policyDecide (mailInput "send") (.failed "") []).1.effect = .allow := by
  refine ⟨List.mem_cons_self, by decide +kernel, by decide +kernel⟩

/-! ## When a tool call is allowed -/

variable {rules rules' : List Predicate}

theorem effect_of_validatePredicate {row : PredicateRow} {p : Predicate}
    (h : validatePredicate row = some p) : p.effect ≠ .allow := by
  unfold validatePredicate at h
  dsimp only at h
  split_ifs at h
  split at h
  · split_ifs at h with hbad
    cases h
    simp only [Bool.or_eq_true, decide_eq_true_eq, not_or] at hbad
    exact hbad.1
  · cases h

/-- The predicates let a call through if none of them matches. -/
theorem applyPredicates_eq_none_iff (hstage : i.stage = .toolCall)
    (hrules : ∀ p ∈ rules, p.effect ≠ .allow) : applyPredicates rules i = none ↔
      ∀ p ∈ rules, p.matchesScope i → p.matchesArgs (predicateArgs i) = false := by
  have hnone : applyPredicates rules i = none ↔ matchedPredicates rules i = [] := by
    rw [applyPredicates, if_neg (by simp [hstage]), Option.or_eq_none_iff, List.find?_eq_none,
      List.find?_eq_none, List.eq_nil_iff_forall_not_mem]
    constructor
    · rintro ⟨hdeny, hpending⟩ d hd
      obtain ⟨p, hp, hpd⟩ := List.mem_map.1 hd
      have hallow : d.effect ≠ .allow := hpd ▸ hrules p (List.mem_of_mem_filter hp)
      have hnotDeny := hdeny d hd
      have hnotPending := hpending d hd
      cases heffect : d.effect <;> simp_all
    · intro h
      exact ⟨fun d hd => absurd hd (h d), fun d hd => absurd hd (h d)⟩
  rw [hnone, matchedPredicates, List.map_eq_nil_iff, List.filter_eq_nil_iff]
  simp

theorem effect_applyPredicates
    (h : ∀ d, d ∈ matchedPredicates rules i ↔ d ∈ matchedPredicates rules' i) :
    (applyPredicates rules i).map PolicyDecision.effect =
      (applyPredicates rules' i).map PolicyDecision.effect := by
  have hfind : ∀ (l : List PolicyDecision) (effect : Effect),
      (l.find? fun d => d.effect = effect).map PolicyDecision.effect =
        if ∃ d ∈ l, d.effect = effect then some effect else none := by
    intro l effect
    cases hl : l.find? fun d => d.effect = effect with
    | none =>
      rw [List.find?_eq_none] at hl
      rw [if_neg]
      · rfl
      · rintro ⟨d, hd, heffect⟩
        exact hl d hd (decide_eq_true heffect)
    | some d =>
      have heffect : d.effect = effect := by simpa using List.find?_some hl
      rw [if_pos ⟨d, List.mem_of_find?_eq_some hl, heffect⟩, Option.map_some, heffect]
  unfold applyPredicates
  split_ifs
  · rfl
  · simp [Option.map_or, hfind, h]

section Allow

variable {e : Engine} {reply : WebhookReply}

/-- What the grants make of a tool call. -/
theorem staticLayer_toolCall (hstage : i.stage = .toolCall) : e.staticLayer i = match e.static with
    | none => .ok none
    | some grants =>
      match grants.find? (Grant.covers i) with
      | none =>
        if e.defaultEffect = .allow ∧ e.webhook = false then
          .ok (some { effect := .allow, reason := "default allow (no matching grant)" })
        else .error { effect := .deny, reason := "no grant for tenant/agent/connector",
                      reasonCode := "policy_no_grant" }
      | some g =>
        if trimSpace i.tool ≠ "" ∧ toolAllowed g.tools (trimSpace i.tool) then
          .ok (some { effect := .allow, reason := "matched grant", ruleId := g.id })
        else .error { effect := .deny, reason := "tool not allowed by grant",
                      reasonCode := "policy_tool_denied", ruleId := g.id } := by
  unfold staticLayer staticDecide
  cases e.static with
  | none => rfl
  | some grants =>
    dsimp only
    cases grants.find? (Grant.covers i) with
    | none => simp
    | some g =>
      cases htool : toolAllowed g.tools (trimSpace i.tool) <;>
        by_cases hblank : trimSpace i.tool = "" <;> simp [hstage, htool, hblank]

/-- The grants let the call through : the one that covers it permits the tool, or there is none for
it and nothing but the default to ask. -/
def Engine.GrantsPass (e : Engine) (i : PolicyInput) : Prop :=
  match e.static with
  | none => e.webhook = true ∨ e.defaultEffect = .allow
  | some grants =>
    match grants.find? (Grant.covers i) with
    | none => e.defaultEffect = .allow ∧ e.webhook = false
    | some g => trimSpace i.tool ≠ "" ∧ toolAllowed g.tools (trimSpace i.tool) = true

/-- Every layer has to let a call through. -/
theorem evaluate_allow_iff (hstage : i.stage = .toolCall) :
    (e.evaluate i reply).effect = .allow ↔ e.GrantsPass i ∧ applyPredicates e.predicates i = none ∧
      (e.webhook → (webhookDecide e.failClosed reply).effect = .allow) := by
  -- past the grants, with the predicates silent, the webhook or what the grants allow decides
  have hrest : ∀ staticAllow : Option PolicyDecision, (∀ s ∈ staticAllow, s.effect = .allow) →
      e.staticLayer i = .ok staticAllow → ((e.evaluate i reply).effect = .allow ↔
        (staticAllow = none → e.webhook ∨ e.defaultEffect = .allow) ∧
        applyPredicates e.predicates i = none ∧
        (e.webhook → (webhookDecide e.failClosed reply).effect = .allow)) := by
    intro staticAllow hallow hok
    simp only [evaluate, hstage, hok]
    cases hpred : applyPredicates e.predicates i with
    | some dec =>
      have heffect : dec.effect ≠ .allow := by
        rw [applyPredicates, if_neg (by simp [hstage]), Option.or_eq_some_iff] at hpred
        obtain hdeny | ⟨-, hpending⟩ := hpred
        · have := List.find?_some hdeny
          simp_all
        · have := List.find?_some hpending
          simp_all
      simp [heffect]
    | none =>
      cases hweb : e.webhook with
      | true =>
        cases hdec : (webhookDecide e.failClosed reply).effect <;> cases staticAllow <;>
          simp [hdec] <;> split_ifs <;> simp [hdec]
      | false =>
        cases staticAllow with
        | none =>
          by_cases hdefault : e.defaultEffect = .allow <;> simp [hdefault]
        | some s => simpa using hallow s rfl
  rw [Engine.GrantsPass]
  have hlayer := staticLayer_toolCall (e := e) hstage
  cases hstatic : e.static with
  | none =>
    rw [hstatic] at hlayer
    simpa using hrest none nofun hlayer
  | some grants =>
    rw [hstatic] at hlayer
    dsimp only at hlayer ⊢
    have herror : ∀ dec : PolicyDecision, dec.effect = .deny → e.staticLayer i = .error dec →
        (e.evaluate i reply).effect ≠ .allow := by
      intro dec hdeny herr
      simp [evaluate, hstage, herr, hdeny]
    cases hfind : grants.find? (Grant.covers i) with
    | none =>
      rw [hfind] at hlayer
      dsimp only at hlayer
      split_ifs at hlayer with hdefault
      · simpa [hdefault] using hrest _ (by simp) hlayer
      · exact iff_of_false (herror _ rfl hlayer) fun h => hdefault h.1
    | some =>
      rw [hfind] at hlayer
      dsimp only at hlayer
      split_ifs at hlayer with htool
      · simpa [htool] using hrest _ (by simp) hlayer
      · exact iff_of_false (herror _ rfl hlayer) fun h => htool h.1

def Engine.withPredicates (e : Engine) (rules : List Predicate) : Engine :=
  { e with predicates := rules }

theorem effect_evaluate_predicates {rules : List Predicate}
    (h : (applyPredicates rules i).map PolicyDecision.effect =
      (applyPredicates e.predicates i).map PolicyDecision.effect) :
    ((e.withPredicates rules).evaluate i reply).effect = (e.evaluate i reply).effect := by
  have hlayer : (e.withPredicates rules).staticLayer i = e.staticLayer i := rfl
  have hcreate : (e.withPredicates rules).decideRunCreate reply = e.decideRunCreate reply := rfl
  simp only [evaluate, hlayer, hcreate]
  by_cases hstage : i.stage = .runCreate
  · rw [if_pos hstage, if_pos hstage]
  · rw [if_neg hstage, if_neg hstage]
    cases e.staticLayer i with
    | error => rfl
    | ok =>
      rw [show (e.withPredicates rules).predicates = rules from rfl]
      generalize applyPredicates rules i = a at h
      generalize applyPredicates e.predicates i = b at h
      cases a with
      | none =>
        cases b with
        | none => rfl
        | some => cases h
      | some =>
        cases b with
        | none => cases h
        | some => exact Option.some.inj h

theorem effect_applyMandatoryHITL {dec dec' : PolicyDecision} (h : dec.effect = dec'.effect) :
    (e.applyMandatoryHITL i dec).effect = (e.applyMandatoryHITL i dec').effect := by
  unfold applyMandatoryHITL
  rw [h]
  split_ifs
  · exact h
  · cases e.matchMandatoryHITL i with
    | none => exact h
    | some => rfl

end Allow

namespace LiveEngine

variable (e : LiveEngine)

/-- The grant for the call : the last one with its names, first of the overlays, then of the
configuration. -/
def effectiveGrant (i : PolicyInput) : Option Grant :=
  Log.latest (fun g => Grant.covers i g && g.complete) (e.config.grants ++ e.overlays)

def hasGrants : Prop := ∃ g ∈ e.config.grants ++ e.overlays, g.complete = true

/-- What the layers ask of a tool call. -/
structure Allows (i : PolicyInput) (reply : WebhookReply) : Prop where
  tenant : trimSpace i.tenantId ≠ ""
  agent : trimSpace i.agentId ≠ ""
  predicates : ∀ p ∈ e.config.validPredicates, p.matchesScope i = true →
    p.matchesArgs (predicateArgs i) = false
  mandatory : ∀ r ∈ mergeMandatoryHITL e.config.mandatoryHITL e.mandatoryHITLOverlays,
    r.covers i = false
  webhook : e.config.hasWebhook = true →
    (webhookDecide (e.config.failClosed.getD true) reply).effect = .allow
  grants :
    (∃ g, e.effectiveGrant i = some g ∧ trimSpace i.tool ≠ "" ∧
      toolAllowed g.tools (trimSpace i.tool) = true) ∨
    (e.hasGrants ∧ e.effectiveGrant i = none ∧ e.config.effect = .allow ∧
      e.config.hasWebhook = false) ∨
    (¬ e.hasGrants ∧ (e.config.hasWebhook = true ∨ e.config.effect = .allow))

def withPredicates (rows : List PredicateRow) : LiveEngine :=
  { e with config := { e.config with predicates := rows } }

variable {e}

theorem engine_withPredicates (rows : List PredicateRow) : (e.withPredicates rows).engine =
    e.engine.withPredicates (rows.filterMap validatePredicate) := by
  simp [engine, withPredicates, Engine.withPredicates, grants, PolicyConfig.validPredicates]

theorem find?_grants : e.grants.find? (Grant.covers i) = e.effectiveGrant i :=
  find?_mergeGrants _ _ i

theorem grants_eq_nil_iff : e.grants = [] ↔ ¬ e.hasGrants := by
  rw [grants, mergeGrants, Overlay.merge_eq_nil_iff, List.filter_eq_nil_iff, hasGrants]
  simp

theorem grantsPass_iff : e.engine.GrantsPass i ↔
    (∃ g, e.effectiveGrant i = some g ∧ trimSpace i.tool ≠ "" ∧
      toolAllowed g.tools (trimSpace i.tool)) ∨
    (e.hasGrants ∧ e.effectiveGrant i = none ∧ e.config.effect = .allow ∧
      e.config.hasWebhook = false) ∨
    (¬ e.hasGrants ∧ (e.config.hasWebhook ∨ e.config.effect = .allow)) := by
  by_cases hnil : e.grants = []
  · have hnone : e.effectiveGrant i = none := by
      rw [← find?_grants, hnil]
      rfl
    have hno := grants_eq_nil_iff.1 hnil
    have hstatic : e.engine.static = none := by
      rw [engine, hnil]
      rfl
    rw [Engine.GrantsPass, hstatic]
    simp [hnone, hno, engine, PolicyConfig.hasWebhook, PolicyConfig.effect]
  · have hsome : e.hasGrants := by
      by_contra hno
      exact hnil (grants_eq_nil_iff.2 hno)
    have hstatic : e.engine.static = some e.grants := by
      obtain ⟨g, _, hcons⟩ := List.exists_cons_of_ne_nil hnil
      rw [engine, hcons]
      rfl
    rw [Engine.GrantsPass, hstatic]
    dsimp only
    rw [find?_grants]
    cases e.effectiveGrant i with
    | none => simp [hsome, engine, PolicyConfig.hasWebhook, PolicyConfig.effect]
    | some => simp [hsome]

theorem uncached_allow_iff (hstage : i.stage = .toolCall) (reply : WebhookReply) :
    (e.engine.uncached i reply).effect = .allow ↔ e.Allows i reply := by
  rw [uncached, applyMandatoryHITL_allow hstage]
  by_cases hmissing : missingBinding i
  · rw [if_pos hmissing]
    refine iff_of_false (fun h => by simp [missingBindingDecision] at h) fun h => ?_
    simp only [missingBinding, Bool.or_eq_true, decide_eq_true_eq] at hmissing
    exact hmissing.elim h.tenant h.agent
  · rw [if_neg hmissing, evaluate_allow_iff hstage, grantsPass_iff]
    rw [show e.engine.predicates = e.config.validPredicates from rfl,
      applyPredicates_eq_none_iff hstage fun p hp => by
        obtain ⟨_, -, hrow⟩ := List.mem_filterMap.1 hp
        exact effect_of_validatePredicate hrow]
    simp only [missingBinding, Bool.or_eq_true, decide_eq_true_eq, not_or] at hmissing
    constructor
    · rintro ⟨⟨hgrants, hpreds, hweb⟩, hmandatory⟩
      exact ⟨hmissing.1, hmissing.2, hpreds, hmandatory, hweb, hgrants⟩
    · intro h
      exact ⟨⟨h.grants, h.predicates, h.webhook⟩, h.mandatory⟩

end LiveEngine

/-- With nothing cached, a tool call is allowed exactly if every layer lets it through. So a
further predicate never makes a call allowed, and the order of the predicates does not matter for
the effect. -/
theorem decide_allow_iff (e : LiveEngine) (i : PolicyInput) (hstage : i.stage = .toolCall)
    (reply : WebhookReply) :
    ((e.engine.policyDecide i reply []).1.effect = .allow ↔ e.Allows i reply) ∧
    (∀ rows, e.config.predicates ⊆ rows →
      ((e.withPredicates rows).engine.policyDecide i reply []).1.effect = .allow →
        (e.engine.policyDecide i reply []).1.effect = .allow) ∧
    ∀ rows, e.config.predicates.Perm rows →
      ((e.withPredicates rows).engine.policyDecide i reply []).1.effect =
        (e.engine.policyDecide i reply []).1.effect := by
  simp only [Engine.policyDecide_nil]
  refine ⟨LiveEngine.uncached_allow_iff hstage reply, fun rows hsub => ?_, fun rows hperm => ?_⟩
  · rw [LiveEngine.uncached_allow_iff hstage, LiveEngine.uncached_allow_iff hstage]
    intro h
    refine ⟨h.tenant, h.agent, fun p hp => h.predicates p ?_, h.mandatory, h.webhook, h.grants⟩
    obtain ⟨row, hrow, hvalid⟩ := List.mem_filterMap.1 hp
    exact List.mem_filterMap.2 ⟨row, hsub hrow, hvalid⟩
  · have hmatched : ∀ d, d ∈ matchedPredicates (rows.filterMap validatePredicate) i ↔
        d ∈ matchedPredicates e.engine.predicates i := by
      intro d
      have hvalid := hperm.filterMap validatePredicate
      exact ((hvalid.filter _).map Predicate.decision).symm.mem_iff
    have heffect : ((e.engine.withPredicates (rows.filterMap validatePredicate)).evaluate i
        reply).effect = (e.engine.evaluate i reply).effect :=
      effect_evaluate_predicates (effect_applyPredicates hmatched)
    rw [LiveEngine.engine_withPredicates, uncached, uncached]
    refine effect_applyMandatoryHITL ?_
    by_cases hmissing : missingBinding i
    · rw [if_pos hmissing, if_pos hmissing]
    · rw [if_neg hmissing, if_neg hmissing]
      exact heffect

/-- A grant for the tool, and a predicate that does not match. -/
def grantedEngine : LiveEngine :=
  ⟨{ grants := [⟨"g", "acme", "bot", "mail", some ⟨["send"], []⟩⟩]
     predicates := [{ id := "p", tenantId := "acme", connector := "mail", path := "token",
                      op := "exists", effect := "deny" }] }, [], []⟩

theorem decide_allow_send : (mailInput "send").stage = .toolCall ∧
    (grantedEngine.engine.policyDecide (mailInput "send") (.failed "") []).1.effect = .allow ∧
    grantedEngine.Allows (mailInput "send") (.failed "") :=
  ⟨rfl, by decide +kernel,
    (decide_allow_iff grantedEngine (mailInput "send") rfl (.failed "")).1.1 (by decide +kernel)⟩

end Runkite
