import Runkite.Json
import Runkite.Strings
import Runkite.Trace

/-!
# Connector requests behind a circuit breaker

A connector has one breaker. `proxyMCPRequest` asks it for admission before it gets a token, and
for the OAuth2 types `getToken` asks the same breaker again before it calls the token endpoint.
While a half-open trial is under way every further admission is refused, so the trial of the outer
request refuses its own token fetch.

What the network answers and what the clock shows are an `Exchange`. The JSON-RPC layer (`Wire`) is
a parameter : how a body is read, how a refusal is written and how a list of tools is filtered.
-/

open Json (Members Number Value)
open Strings (trimSpace)

namespace Runkite.Connectors

/-! ## The breaker -/

structure CircuitBreakerConfig where
  failureThreshold : ℤ
  cooldownSeconds : ℤ
deriving DecidableEq

def defaultCircuitBreakerConfig : CircuitBreakerConfig where
  failureThreshold := 5
  cooldownSeconds := 30

inductive BreakerState where
  | stateClosed
  | stateOpen
  | stateHalfOpen
deriving DecidableEq

structure CircuitBreaker where
  cfg : CircuitBreakerConfig
  state : BreakerState
  consecutiveFailures : ℤ
  /-- Nanoseconds, as every instant here. -/
  openedAt : ℤ
  halfOpenInFlight : Bool
deriving DecidableEq

/-- The nanoseconds of a number of seconds. -/
def seconds (n : ℤ) : ℤ := n * 10 ^ 9

namespace CircuitBreaker

/-- Zero-valued fields of the configuration take the defaults. -/
def newCircuitBreaker (cfg : Option CircuitBreakerConfig) : CircuitBreaker where
  cfg := match cfg with
    | none => defaultCircuitBreakerConfig
    | some c =>
      { failureThreshold := if c.failureThreshold > 0 then c.failureThreshold
          else defaultCircuitBreakerConfig.failureThreshold
        cooldownSeconds := if c.cooldownSeconds > 0 then c.cooldownSeconds
          else defaultCircuitBreakerConfig.cooldownSeconds }
  state := .stateClosed
  consecutiveFailures := 0
  openedAt := 0
  halfOpenInFlight := false

def allow (now : ℤ) (cb : CircuitBreaker) : Bool × CircuitBreaker :=
  match cb.state with
  | .stateClosed => (true, cb)
  | .stateOpen =>
    if now - cb.openedAt < seconds cb.cfg.cooldownSeconds then (false, cb)
    else (true, { cb with state := .stateHalfOpen, halfOpenInFlight := true })
  | .stateHalfOpen => (false, cb)

def recordSuccess (cb : CircuitBreaker) : CircuitBreaker :=
  { cb with consecutiveFailures := 0, state := .stateClosed, halfOpenInFlight := false }

def recordFailure (now : ℤ) (cb : CircuitBreaker) : CircuitBreaker :=
  if cb.state = .stateHalfOpen then
    { cb with state := .stateOpen, openedAt := now, halfOpenInFlight := false }
  else if cb.consecutiveFailures + 1 ≥ cb.cfg.failureThreshold then
    { cb with consecutiveFailures := cb.consecutiveFailures + 1, state := .stateOpen,
              openedAt := now }
  else { cb with consecutiveFailures := cb.consecutiveFailures + 1 }

/-- The breaker is open and its cooldown is over. -/
structure Due (now : ℤ) (cb : CircuitBreaker) : Prop where
  state : cb.state = .stateOpen
  elapsed : cb.openedAt + seconds cb.cfg.cooldownSeconds ≤ now

def trial (cb : CircuitBreaker) : CircuitBreaker :=
  { cb with state := .stateHalfOpen, halfOpenInFlight := true }

theorem allow_of_due {now : ℤ} {cb : CircuitBreaker} (h : cb.Due now) :
    cb.allow now = (true, cb.trial) := by
  have hnot : ¬ now - cb.openedAt < seconds cb.cfg.cooldownSeconds := by
    have := h.elapsed
    omega
  simp [allow, h.state, if_neg hnot, trial]

theorem allow_trial (now : ℤ) (cb : CircuitBreaker) : cb.trial.allow now = (false, cb.trial) := rfl

/-- A call that the breaker refuses leaves it as it was, one that it admits finds it closed
or on trial. -/
theorem allow_cases (now : ℤ) (cb : CircuitBreaker) :
    cb.allow now = (false, cb) ∨ (cb.state = .stateClosed ∧ cb.allow now = (true, cb)) ∨
      (cb.state = .stateOpen ∧ cb.allow now = (true, cb.trial)) := by
  rcases h : cb.state with _ | _ | _
  · exact .inr (.inl ⟨rfl, by simp [allow, h]⟩)
  · by_cases hc : now - cb.openedAt < seconds cb.cfg.cooldownSeconds
    · exact .inl (by simp [allow, h, if_pos hc])
    · exact .inr (.inr ⟨rfl, by simp [allow, h, if_neg hc, trial]⟩)
  · exact .inl (by simp [allow, h])

end CircuitBreaker

/-! ## Connectors -/

/-- The types of authentication, and whatever else a configuration may say. -/
inductive AuthType where
  | apiKey
  | bearer
  | oauth2ClientCredentials
  | oauth2TokenExchange
  | unsupported (type : String)
deriving DecidableEq

structure AuthConfig where
  type : AuthType
  issuer : String := ""
  tokenUrl : String := ""
  clientId : String := ""
  clientSecret : String := ""
  scopes : List String := []
  apiKey : String := ""
  bearerToken : String := ""
  secretRef : String := ""
deriving DecidableEq

structure MCPConfig where
  url : String
  transport : String := ""
deriving DecidableEq

structure ToolFilter where
  allow : List String := []
  deny : List String := []
deriving DecidableEq

structure ConnectorConfig where
  auth : AuthConfig
  mcp : Option MCPConfig
  tools : Option ToolFilter := none
deriving DecidableEq

structure CachedToken where
  accessToken : String
  refreshToken : String := ""
  expiresAt : ℤ
  instanceUrl : String := ""
deriving DecidableEq

structure Connector where
  name : String
  config : ConnectorConfig
  breaker : CircuitBreaker
  cachedToken : Option CachedToken
deriving DecidableEq

/-- The text of an error, and whether `errors.As` finds an `ErrCircuitOpen` in it. -/
structure ConnectorError where
  text : String
  circuitOpen : Bool := false
deriving DecidableEq

def errCircuitOpen (connector : String) : ConnectorError where
  text := "circuit breaker open for connector: " ++ connector
  circuitOpen := true

def ConnectorError.wrap (what : String) (e : ConnectorError) : ConnectorError :=
  { e with text := what ++ e.text }

def isAllowed (filter : Option ToolFilter) (tool : String) : Bool :=
  match filter with
  | none => true
  | some f =>
    if tool ∈ f.deny then false
    else if f.allow ≠ [] then decide (tool ∈ f.allow)
    else true

structure MCPRequest (β : Type) where
  id : Option β
  method : String
  tool : String
  arguments : Option β
  body : β

structure ProxyMCPResult (β : Type) where
  body : β
  statusCode : ℕ
deriving DecidableEq

/-- The JSON-RPC layer over bodies of type `β`. -/
structure Wire (β : Type) where
  /-- The `%q` verb. -/
  quote : String → String
  parseMCPRequest : β → Except ConnectorError (MCPRequest β)
  /-- The error response of a denied call : its id and its message. -/
  deniedRPCResult : Option β → String → Except ConnectorError (ProxyMCPResult β)
  filterToolsListResponse : β → Option ToolFilter → β

/-- What a request finds outside the process : the clock at each reading, the secrets, the
token endpoint and the downstream server. -/
structure Exchange (β : Type) where
  /-- The reading of the outer `Allow`. -/
  admitAt : ℤ
  /-- The reading of the cache check, and of the lifetime of a static credential. -/
  tokenAt : ℤ
  /-- The reading of the token fetch's own `Allow`. -/
  fetchAt : ℤ
  /-- The reading of the token fetch's `RecordFailure`. -/
  fetchFailedAt : ℤ
  /-- The reading of the outer `RecordFailure`. -/
  failedAt : ℤ
  resolveSecretRef : String → Except ConnectorError String
  oauth2ClientCredentials : AuthConfig → Except ConnectorError CachedToken
  oauth2TokenExchange : AuthConfig → String → Except ConnectorError CachedToken
  forwardMCPRequest : String → String → β → Except ConnectorError (β × ℕ)
  forwardStreamableMCP : String → String → MCPRequest β → Except ConnectorError (β × ℕ)

variable {β : Type}

def staticCredentialSessionTTL : ℤ := seconds 3600

/-- The authentication with the secret its reference names. -/
def materializeAuthSecret (wire : Wire β) (x : Exchange β) (auth : AuthConfig) :
    Except ConnectorError AuthConfig :=
  if trimSpace auth.secretRef = "" then .ok auth
  else match x.resolveSecretRef auth.secretRef with
    | .error e => .error e
    | .ok secret =>
      match auth.type with
      | .apiKey =>
        if auth.apiKey ≠ "" then .error ⟨"auth: set api_key or secret_ref, not both", false⟩
        else .ok { auth with apiKey := secret }
      | .bearer =>
        if auth.bearerToken ≠ "" then
          .error ⟨"auth: set bearer_token or secret_ref, not both", false⟩
        else .ok { auth with bearerToken := secret }
      | .oauth2ClientCredentials | .oauth2TokenExchange =>
        if auth.clientSecret ≠ "" then
          .error ⟨"auth: set client_secret or secret_ref, not both", false⟩
        else .ok { auth with clientSecret := secret }
      | .unsupported type =>
        .error ⟨"auth: secret_ref unsupported for type " ++ wire.quote type, false⟩

namespace Connector

/-- A cached token that is good for at least another minute. -/
def cached (now : ℤ) (c : Connector) : Option CachedToken :=
  c.cachedToken.filter fun token => now + seconds 60 < token.expiresAt

def getClientCredentialsToken (x : Exchange β) (auth : AuthConfig) (c : Connector) :
    Except ConnectorError CachedToken × Connector :=
  match c.cached x.tokenAt with
  | some token => (.ok token, c)
  | none =>
    match c.breaker.allow x.fetchAt with
    | (false, cb) => (.error (errCircuitOpen c.name), { c with breaker := cb })
    | (true, cb) =>
      match x.oauth2ClientCredentials auth with
      | .error e => (.error e, { c with breaker := cb.recordFailure x.fetchFailedAt })
      | .ok token => (.ok token, { c with breaker := cb.recordSuccess, cachedToken := some token })

def getToken (wire : Wire β) (x : Exchange β) (userCtx : Members Number) (c : Connector) :
    Except ConnectorError CachedToken × Connector :=
  match materializeAuthSecret wire x c.config.auth with
  | .error e => (.error e, c)
  | .ok auth =>
    match auth.type with
    | .apiKey =>
      (.ok { accessToken := auth.apiKey, expiresAt := x.tokenAt + staticCredentialSessionTTL }, c)
    | .bearer =>
      (.ok { accessToken := auth.bearerToken
             expiresAt := x.tokenAt + staticCredentialSessionTTL }, c)
    | .oauth2ClientCredentials => c.getClientCredentialsToken x auth
    | .oauth2TokenExchange =>
      if userCtx.string "sso_token" = "" then
        (.error ⟨"sso_token required for token_exchange", false⟩, c)
      else match c.breaker.allow x.fetchAt with
        | (false, cb) => (.error (errCircuitOpen c.name), { c with breaker := cb })
        | (true, cb) =>
          match x.oauth2TokenExchange auth (userCtx.string "sso_token") with
          | .error e => (.error e, { c with breaker := cb.recordFailure x.fetchFailedAt })
          | .ok token => (.ok token, { c with breaker := cb.recordSuccess })
    | .unsupported type => (.error ⟨"unsupported auth type: " ++ type, false⟩, c)

/-- The call to the downstream server, over the transport that is configured. -/
def forward (x : Exchange β) (mcp : MCPConfig) (token : CachedToken) (req : MCPRequest β) :
    Except ConnectorError (β × ℕ) :=
  if mcp.transport = "streamable_http" then x.forwardStreamableMCP mcp.url token.accessToken req
  else x.forwardMCPRequest mcp.url token.accessToken req.body

/-- The part of `ProxyMCPRequest` behind the tool filter. -/
def admitted (wire : Wire β) (x : Exchange β) (userCtx : Members Number) (mcp : MCPConfig)
    (req : MCPRequest β) (c : Connector) : Except ConnectorError (ProxyMCPResult β) × Connector :=
  match c.breaker.allow x.admitAt with
  | (false, cb) => (.error (errCircuitOpen c.name), { c with breaker := cb })
  | (true, cb) =>
    match getToken wire x userCtx { c with breaker := cb } with
    | (.error e, c) =>
      (.error (e.wrap ("connector " ++ c.name ++ ": ")),
        { c with breaker := c.breaker.recordFailure x.failedAt })
    | (.ok token, c) =>
      match forward x mcp token req with
      | .error e =>
        (.error (e.wrap ("connector " ++ c.name ++ ": mcp request failed: ")),
          { c with breaker := c.breaker.recordFailure x.failedAt })
      | .ok (body, statusCode) =>
        (.ok { body := if req.method = "tools/list" then
                   wire.filterToolsListResponse body c.config.tools else body
               statusCode := statusCode },
          { c with breaker := c.breaker.recordSuccess })

/-- A `tools/call` that the connector's filter keeps from the downstream server. -/
def denies (c : Connector) (req : MCPRequest β) : Bool :=
  req.method = "tools/call" && (req.tool = "" || !isAllowed c.config.tools req.tool)

/-- `ProxyMCPRequest` on the connector it has looked up. -/
def proxyMCPRequest (wire : Wire β) (x : Exchange β) (userCtx : Members Number) (body : β)
    (c : Connector) : Except ConnectorError (ProxyMCPResult β) × Connector :=
  match c.config.mcp with
  | none => (.error ⟨"connector " ++ c.name ++ " has no MCP endpoint configured", false⟩, c)
  | some mcp =>
    if mcp.transport ≠ "" ∧ mcp.transport ≠ "json" ∧ mcp.transport ≠ "streamable_http" then
      (.error ⟨"connector " ++ c.name ++ ": unsupported MCP transport " ++
        wire.quote mcp.transport, false⟩, c)
    else match wire.parseMCPRequest body with
      | .error e => (.error e, c)
      | .ok req =>
        if c.denies req then
          (wire.deniedRPCResult req.id ("tool " ++ wire.quote req.tool ++
            " is not allowed by connector " ++ wire.quote c.name ++ "'s tool filter"), c)
        else c.admitted wire x userCtx mcp req

end Connector

/-- The registered connectors, each under its name. -/
abbrev Registry := String → Option Connector

def Registry.proxyMCPRequest (wire : Wire β) (x : Exchange β) (name : String)
    (userCtx : Members Number) (body : β) (r : Registry) :
    Except ConnectorError (ProxyMCPResult β) × Registry :=
  match r name with
  | none => (.error ⟨"connector not found: " ++ name, false⟩, r)
  | some c =>
    let (result, c) := c.proxyMCPRequest wire x userCtx body
    (result, Function.update r name (some c))

/-! ## What a request would get -/

variable {wire : Wire β} {x : Exchange β} {userCtx : Members Number} {c : Connector}
  {mcp : MCPConfig}
  {req : MCPRequest β}

namespace Connector

/-- The token of a request, whatever the breaker says. -/
def tokenFetch (wire : Wire β) (x : Exchange β) (userCtx : Members Number) (c : Connector) :
    Except ConnectorError CachedToken :=
  (getToken wire x userCtx { c with breaker := c.breaker.recordSuccess }).1

/-- The request passes the connector's own checks and is for the endpoint `mcp`. -/
structure Accepts (wire : Wire β) (body : β) (mcp : MCPConfig) (req : MCPRequest β)
    (c : Connector) : Prop where
  endpoint : c.config.mcp = some mcp
  transport : mcp.transport = "" ∨ mcp.transport = "json" ∨ mcp.transport = "streamable_http"
  parsed : wire.parseMCPRequest body = .ok req
  allowed : c.denies req = false

/-- The token comes from the configuration or the cache, so that getting it makes no call. -/
def TokenAtHand (now : ℤ) (c : Connector) : Prop :=
  c.config.auth.type = .apiKey ∨ c.config.auth.type = .bearer ∨
    c.config.auth.type = .oauth2ClientCredentials ∧ (c.cached now).isSome

instance (now : ℤ) (c : Connector) : Decidable (c.TokenAtHand now) := by
  unfold TokenAtHand
  infer_instance

/-! ### The token -/

theorem type_materializeAuthSecret {auth auth' : AuthConfig}
    (h : materializeAuthSecret wire x auth = .ok auth') : auth'.type = auth.type := by
  unfold materializeAuthSecret at h
  by_cases href : trimSpace auth.secretRef = ""
  · rw [if_pos href] at h
    cases h
    rfl
  · rw [if_neg href] at h
    rcases hs : x.resolveSecretRef auth.secretRef with e | secret
    · rw [hs] at h
      cases h
    · rw [hs] at h
      rcases ht : auth.type with _ | _ | _ | _ | type
      -- A secret fills the field of its type, and an unsupported type has none.
      rotate_right
      · simp only [ht] at h
        cases h
      all_goals
        simp only [ht] at h
        split_ifs at h
        cases h
        rfl

variable {token : CachedToken}

/-- A token at hand is returned whatever the state of the breaker, which is not asked. -/
theorem getToken_of_tokenAtHand (htoken : c.tokenFetch wire x userCtx = .ok token)
    (hand : c.TokenAtHand x.tokenAt) (cb : CircuitBreaker) :
    getToken wire x userCtx { c with breaker := cb } = (.ok token, { c with breaker := cb }) := by
  rcases hm : materializeAuthSecret wire x c.config.auth with e | auth
  · simp only [tokenFetch, getToken, hm] at htoken
    cases htoken
  · have htype := type_materializeAuthSecret hm
    simp only [tokenFetch, getToken, hm] at htoken ⊢
    rcases hand with h | h | ⟨h, hc⟩
    · rw [htype, h] at htoken ⊢
      cases htoken
      rfl
    · rw [htype, h] at htoken ⊢
      cases htoken
      rfl
    · obtain ⟨found, hfound⟩ := Option.isSome_iff_exists.1 hc
      rw [htype, h] at htoken ⊢
      have hkeep : ∀ cb, cached x.tokenAt { c with breaker := cb } = some found := fun _ => hfound
      simp only [getClientCredentialsToken, hkeep] at htoken ⊢
      cases htoken
      rfl

/-- During a trial a token that has to be fetched is refused or fails, and nothing changes. -/
theorem getToken_trial (hand : ¬ c.TokenAtHand x.tokenAt) (cb : CircuitBreaker) :
    ∃ e, getToken wire x userCtx { c with breaker := cb.trial } =
      (.error e, { c with breaker := cb.trial }) := by
  rcases hm : materializeAuthSecret wire x c.config.auth with e | auth
  · exact ⟨e, by simp [getToken, hm]⟩
  · have htype := type_materializeAuthSecret hm
    simp only [getToken, hm]
    rcases ht : c.config.auth.type with _ | _ | _ | _ | type
    · exact absurd (.inl ht) hand
    · exact absurd (.inr (.inl ht)) hand
    · have hnone : c.cached x.tokenAt = none := by
        by_contra hsome
        exact hand (.inr (.inr ⟨ht, Option.isSome_iff_ne_none.2 hsome⟩))
      have hkeep : cached x.tokenAt { c with breaker := cb.trial } = none := hnone
      rw [htype, ht]
      simp only [getClientCredentialsToken, hkeep, CircuitBreaker.allow_trial]
      exact ⟨_, rfl⟩
    · rw [htype, ht]
      by_cases hsso : userCtx.string "sso_token" = ""
      · simp only [if_pos hsso]
        exact ⟨_, rfl⟩
      · simp only [if_neg hsso, CircuitBreaker.allow_trial]
        exact ⟨_, rfl⟩
    · rw [htype, ht]
      exact ⟨_, rfl⟩

/-! ### The request -/

theorem proxyMCPRequest_of_accepts {body : β} (h : c.Accepts wire body mcp req) (x : Exchange β)
    (userCtx : Members Number) :
    c.proxyMCPRequest wire x userCtx body = c.admitted wire x userCtx mcp req := by
  have htransport : ¬ (mcp.transport ≠ "" ∧ mcp.transport ≠ "json" ∧
      mcp.transport ≠ "streamable_http") := by
    rintro ⟨h₁, h₂, h₃⟩
    rcases h.transport with ht | ht | ht
    · exact h₁ ht
    · exact h₂ ht
    · exact h₃ ht
  simp only [proxyMCPRequest, h.endpoint, if_neg htransport, h.parsed, h.allowed]
  rfl

/-- What the downstream server's answer becomes. -/
def answer (wire : Wire β) (req : MCPRequest β) (resp : β × ℕ) (c : Connector) :
    ProxyMCPResult β where
  body := if req.method = "tools/list" then
      wire.filterToolsListResponse resp.1 c.config.tools else resp.1
  statusCode := resp.2

/-- Otherwise the trial fails at its own token fetch and opens the breaker again. -/
theorem admitted_trial (hallow : c.breaker.allow x.admitAt = (true, c.breaker.trial))
    (hand : ¬ c.TokenAtHand x.tokenAt) : ∃ e, c.admitted wire x userCtx mcp req =
      (.error e, { c with breaker := c.breaker.trial.recordFailure x.failedAt }) := by
  obtain ⟨e, he⟩ := @getToken_trial _ wire _ userCtx _ hand c.breaker
  refine ⟨e.wrap ("connector " ++ c.name ++ ": "), ?_⟩
  simp [admitted, hallow, he]

/-- A request leaves the configuration and the cache of a connector alone that has to fetch
its token and is not closed. -/
theorem proxyMCPRequest_of_open {body : β} (hopen : c.breaker.state = .stateOpen)
    (hand : ¬ c.TokenAtHand x.tokenAt) : ∃ cb, cb.state = .stateOpen ∧
      (c.proxyMCPRequest wire x userCtx body).2 = { c with breaker := cb } := by
  have hsame : ∃ cb, cb.state = .stateOpen ∧ c = { c with breaker := cb } :=
    ⟨c.breaker, hopen, rfl⟩
  unfold proxyMCPRequest
  rcases hmcp : c.config.mcp with _ | mcp
  · exact hsame
  · by_cases ht : mcp.transport ≠ "" ∧ mcp.transport ≠ "json" ∧ mcp.transport ≠ "streamable_http"
    · simp only [if_pos ht]
      exact hsame
    · simp only [if_neg ht]
      rcases hp : wire.parseMCPRequest body with e | req
      · exact hsame
      · by_cases hd : c.denies req
        · simp only [if_pos hd]
          exact hsame
        · simp only [if_neg hd]
          rcases CircuitBreaker.allow_cases x.admitAt c.breaker with h | ⟨h, -⟩ | ⟨-, h⟩
          · refine ⟨c.breaker, hopen, ?_⟩
            simp [admitted, h]
          · rw [hopen] at h
            cases h
          · obtain ⟨e, he⟩ := @admitted_trial _ wire _ userCtx _ mcp req h hand
            refine ⟨c.breaker.trial.recordFailure x.failedAt, rfl, ?_⟩
            rw [he]

end Connector

/-- A connector recovers with this request : the answer is the downstream one and the breaker is
closed. -/
def Registry.Recovers (wire : Wire β) (x : Exchange β) (name : String) (userCtx : Members Number)
    (body : β) (r : Registry) (result : ProxyMCPResult β) : Prop :=
  (r.proxyMCPRequest wire x name userCtx body).1 = .ok result ∧
    ((r.proxyMCPRequest wire x name userCtx body).2 name).map (·.breaker.state) =
      some .stateClosed

/-- A due breaker closes again with a request whose token fetch and downstream call would both
succeed exactly if getting the token takes no call. -/
theorem recovers_iff_tokenAtHand (wire : Wire β) (x : Exchange β) (name : String)
    (userCtx : Members Number) (body : β) (r : Registry) (c : Connector) (mcp : MCPConfig)
    (req : MCPRequest β) (token : CachedToken) (resp : β × ℕ) (hname : r name = some c)
    (haccepts : c.Accepts wire body mcp req) (hdue : c.breaker.Due x.admitAt)
    (htoken : c.tokenFetch wire x userCtx = .ok token)
    (hresp : Connector.forward x mcp token req = .ok resp) :
    r.Recovers wire x name userCtx body (c.answer wire req resp) ↔ c.TokenAtHand x.tokenAt := by
  simp only [Registry.Recovers, Registry.proxyMCPRequest, hname,
    Connector.proxyMCPRequest_of_accepts haccepts, Function.update_self, Option.map_some]
  constructor
  · rintro ⟨hok, -⟩
    by_contra hand
    obtain ⟨e, he⟩ := @Connector.admitted_trial _ wire _ userCtx _ mcp req
      (CircuitBreaker.allow_of_due hdue) hand
    rw [he] at hok
    cases hok
  · intro hand
    simp only [Connector.admitted, CircuitBreaker.allow_of_due hdue,
      Connector.getToken_of_tokenAtHand htoken hand, hresp]
    exact ⟨rfl, rfl⟩

/-- Bodies as JSON trees, for requests without params. -/
def treeWire : Wire (Value Number) where
  quote := String.quote
  parseMCPRequest body :=
    match body with
    | .object ms =>
      if Members.string ms "jsonrpc" ≠ "2.0" then .error ⟨"invalid JSON-RPC version", false⟩
      else if Members.string ms "method" = "" then .error ⟨"invalid JSON-RPC method", false⟩
      else .ok ⟨ms.lookup "id", Members.string ms "method", "", none, body⟩
    | _ => .error ⟨"invalid JSON-RPC request", false⟩
  deniedRPCResult id message := .ok ⟨.object [("jsonrpc", .string "2.0"), ("id", id.getD .null),
    ("error", .object [("code", .number (.int (-32000))), ("message", .string message)])], 200⟩
  filterToolsListResponse body _ := body

def ping : Value Number :=
  .object [("jsonrpc", .string "2.0"), ("id", .number (.int 1)), ("method", .string "ping")]

def pong : Value Number :=
  .object [("jsonrpc", .string "2.0"), ("id", .number (.int 1)), ("result", .object [])]

/-- Endpoints that answer every call, half a minute and a second after instant zero. -/
def answering : Exchange (Value Number) where
  admitAt := seconds 31
  tokenAt := seconds 31
  fetchAt := seconds 31
  fetchFailedAt := seconds 31
  failedAt := seconds 31
  resolveSecretRef _ := .ok "secret"
  oauth2ClientCredentials _ := .ok { accessToken := "access", expiresAt := seconds 4000 }
  oauth2TokenExchange _ _ := .ok { accessToken := "access", expiresAt := seconds 4000 }
  forwardMCPRequest _ _ _ := .ok (pong, 200)
  forwardStreamableMCP _ _ _ := .ok (pong, 200)

/-- A connector whose breaker opened at instant zero. -/
def tripped (type : AuthType) : Connector where
  name := "crm"
  config := { auth := { type := type }, mcp := some { url := "crm/mcp" } }
  breaker := { CircuitBreaker.newCircuitBreaker none with state := .stateOpen }
  cachedToken := none

theorem tripped_due (type : AuthType) : (tripped type).breaker.Due answering.admitAt :=
  ⟨rfl, show (0 : ℤ) + seconds 30 ≤ seconds 31 by decide⟩

theorem tripped_accepts (type : AuthType) :
    (tripped type).Accepts treeWire ping { url := "crm/mcp" }
      ⟨some (.number (.int 1)), "ping", "", none, ping⟩ :=
  ⟨rfl, .inl rfl, rfl, rfl⟩

theorem recovers_apiKey : Registry.Recovers treeWire answering "crm" [] ping
      (fun _ => some (tripped .apiKey)) ⟨pong, 200⟩ :=
  (recovers_iff_tokenAtHand treeWire answering "crm" [] ping _ (tripped .apiKey) _ _ _
    (pong, 200) rfl (tripped_accepts .apiKey) (tripped_due .apiKey) rfl rfl).2 (.inl rfl)

/-- The endpoints would answer, and the request is refused by the trial that it is itself. -/
theorem clientCredentials_not_recovers :
    (tripped .oauth2ClientCredentials).Accepts treeWire ping
        { url := "crm/mcp" } ⟨some (.number (.int 1)), "ping", "", none, ping⟩ ∧
      (tripped .oauth2ClientCredentials).breaker.Due answering.admitAt ∧
      (tripped .oauth2ClientCredentials).tokenFetch treeWire answering [] =
        .ok { accessToken := "access", expiresAt := seconds 4000 } ∧
      answering.forwardMCPRequest "crm/mcp" "access" ping =
        .ok (pong, 200) ∧
      (Registry.proxyMCPRequest treeWire answering "crm" [] ping
          (fun _ => some (tripped .oauth2ClientCredentials))).1 =
        .error ⟨"connector crm: circuit breaker open for connector: crm", true⟩ ∧
      (Registry.proxyMCPRequest treeWire answering "crm" [] ping
          (fun _ => some (tripped .oauth2ClientCredentials))).2 "crm" =
        some { tripped .oauth2ClientCredentials with
          breaker := { (tripped .oauth2ClientCredentials).breaker with
            openedAt := seconds 31 } } :=
  ⟨tripped_accepts _, tripped_due _, rfl, rfl, rfl, rfl⟩

/-! ## Runs of requests -/

/-- One request to a connector and what it finds outside. -/
structure ProxyCall (β : Type) where
  exchange : Exchange β
  userCtx : Members Number
  body : β

def Connector.step (wire : Wire β) (call : ProxyCall β) (c : Connector) : Connector :=
  (c.proxyMCPRequest wire call.exchange call.userCtx call.body).2

/-- Once the breaker of a connector has opened that has to fetch its tokens and has none, no
requests ever close it, however long they wait and whatever the endpoints would answer. -/
theorem stateOpen_run (wire : Wire β) (calls : List (ProxyCall β))
    (hopen : c.breaker.state = .stateOpen) (hfetch : ∀ now, ¬ c.TokenAtHand now) :
    (Trace.run (Connector.step wire) calls c).breaker.state = .stateOpen := by
  -- a request that fails at its token fetch leaves no token behind
  obtain ⟨cb, hcb, heq⟩ := @Trace.invariant_of_step _ _ (Connector.step wire)
    (fun c' => ∃ cb, cb.state = .stateOpen ∧ c' = { c with breaker := cb })
    (by
      rintro call _ ⟨cb, hcb, rfl⟩
      exact Connector.proxyMCPRequest_of_open hcb (hfetch _)) calls c ⟨c.breaker, hopen, rfl⟩
  rw [heq]
  exact hcb

theorem stateOpen_run_tokenExchange :
    (Trace.run (Connector.step treeWire)
      (List.replicate 3 ⟨answering, [("sso_token", .string "sso")], ping⟩)
      (tripped .oauth2TokenExchange)).breaker.state = .stateOpen :=
  stateOpen_run treeWire _ rfl fun _ => by simp [Connector.TokenAtHand, tripped]

end Runkite.Connectors
