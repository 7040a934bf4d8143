import Mathlib.Tactic.FinCases
import Runkite.Strings

/-!
# Permissions of client requests

The auth middleware decides from the method and the path whether a caller may make a request
(`admission`), and the mux picks the handler (`dispatch`). The two read the path differently : the
mux takes it apart at the slashes of the escaped path and decodes the segments, the middleware
reads the decoded path, where a segment may have slashes of its own. A request is given by the
decoded segments, and the middleware's path by its pieces between slashes (`pieces`).

`routes` are the patterns whose handlers create, cancel or delete runs, edit or delete threads,
decide a tool call or look up its action. No other pattern matches a request that one of these
matches. Paths that are not clean are redirected before they come here, and `/internal` is for
runners.
-/

open Strings (split trimSpace)

namespace Runkite

inductive Method where
  | get
  | head
  | post
  | put
  | patch
  | delete
  | other (name : String)
deriving DecidableEq, Repr

def Method.text : Method → String
  | .get => "GET"
  | .head => "HEAD"
  | .post => "POST"
  | .put => "PUT"
  | .patch => "PATCH"
  | .delete => "DELETE"
  | .other name => name

/-- The permissions of a caller; an empty list is no restriction unless the server is strict. -/
abbrev Permissions := List String

/-! ## The path as the middleware reads it -/

/-- The pieces of `r.URL.Path` between its slashes; a slash at the end leaves an empty piece. -/
def pieces (target : List String) : List String := target.flatMap (split '/')

/-- `strings.TrimSuffix(path, "/")`. -/
def trimSlash (path : List String) : List String :=
  if path.getLast? = some "" then path.dropLast else path

def isPublicPath (method : Method) (path : List String) : Bool :=
  ((path = ["admin-api", "session"] || path = ["admin-api", "session", ""]) &&
      (method = .post || method = .get || method = .head)) ||
    ((method = .get || method = .head) &&
      (path ∈ [["health"], ["health", ""], ["livez"], ["livez", ""], ["readyz"], ["readyz", ""],
          ["admin"]] || (path.head? = some "admin" && 2 ≤ path.length)))

def isInternalPath (path : List String) : Bool := path.head? = some "internal"

def isAdminAPIPath (path : List String) : Bool := path.head? = some "admin-api"

def governanceDecidePermission : String := "governance:decide"

def isGovernanceClientPath (method : Method) (path : List String) : Bool :=
  (method = .post && trimSlash path = ["governance", "decide"]) ||
    (method = .get &&
      match trimSlash path with
      | "governance" :: "actions" :: rest => rest ≠ [] && rest ≠ [""]
      | _ => false)

def requiredPermission (method : Method) (path : List String) : String :=
  if isGovernanceClientPath method path then governanceDecidePermission
  else if method = .get || method = .head then "read"
  else "write"

/-- `POST` routes that create a run. -/
def isRunCreatePath (method : Method) (path : List String) : Bool :=
  method = .post &&
    match trimSlash path with
    | ["runs"] => true
    | ["runs", "stream"] => true
    | ["runs", "wait"] => true
    | ["threads", _, "runs"] => true
    | ["threads", _, "runs", "stream"] => true
    | ["threads", _, "runs", "wait"] => true
    | _ => false

/-! ## Permissions -/

def agentRunPermPrefix : String := "agents:"

def agentRunPermSuffix : String := ":run"

/-- `agents:<id>:run`. -/
def isAgentRunPermission (p : String) : Bool :=
  agentRunPermPrefix.toList.isPrefixOf p.toList && agentRunPermSuffix.toList.isSuffixOf p.toList &&
    (let mid := p.toList.drop agentRunPermPrefix.length
     let mid := if agentRunPermSuffix.toList.isSuffixOf mid then
       mid.take (mid.length - agentRunPermSuffix.length) else mid
     mid ≠ [] && ':' ∉ mid)

def agentRunPermission (agentId : String) : String :=
  agentRunPermPrefix ++ (trimSpace agentId ++ agentRunPermSuffix)

/-- "admin" grants everything, "write" also grants "read", and a grant for one agent passes as
"write" where a run is created. -/
def hasPermission (permissions : Permissions) (required : String) (method : Method)
    (path : List String) : Bool :=
  permissions.any fun p => p = "admin" || p = required || (required = "read" && p = "write") ||
    (required = "write" && isAgentRunPermission p && isRunCreatePath method path)

def authorized (strict : Bool) (permissions : Permissions) (method : Method)
    (path : List String) : Bool :=
  if permissions.isEmpty then !strict
  else hasPermission permissions (requiredPermission method path) method path

def authorizedAdmin (strict : Bool) (permissions : Permissions) : Bool :=
  if permissions.isEmpty then !strict else hasPermission permissions "admin" (.other "") []

/-- The agent check of the admission gate. -/
def canRunAgent (permissions : Permissions) (agentId : String) : Bool :=
  trimSpace agentId ≠ "" && (permissions.isEmpty || permissions.any fun p =>
    p = "admin" || p = "write" || p = agentRunPermission (trimSpace agentId))

/-! ## The middleware -/

inductive Admission where
  /-- Served without authentication. -/
  | anonymous
  /-- Left to the authentication of runners. -/
  | runner
  | admitted
  | forbidden (message : String)
deriving DecidableEq, Repr

/-- `MiddlewareWithOpts` for a caller that the provider authenticates. -/
def admission (strict : Bool) (permissions : Permissions) (method : Method) (path : List String) :
    Admission :=
  if isPublicPath method path then .anonymous
  else if isInternalPath path then .runner
  else if isAdminAPIPath path then
    if authorizedAdmin strict permissions then .admitted
    else .forbidden "insufficient permissions (requires 'admin')"
  else if authorized strict permissions method path then .admitted
  else .forbidden ("insufficient permissions for " ++ method.text ++ " (requires '" ++
    requiredPermission method path ++ "')")

/-! ## The mux -/

inductive Handler where
  | governanceDecide
  | governanceGetAction
  | deleteThread
  | patchThread
  | updateThreadState
  | createThreadRun
  | cancelThreadRun
  | deleteThreadRun
  | createBackgroundRun
  | deleteRun
  | cancelRun
  | threadCommand
  | threadWebSocket
  | mcp
  | adminCreateThreadRun
  | adminCancelRun
  | adminDeleteThread
  | adminCreateKillSwitch
deriving DecidableEq, Repr

/-- A pattern of the mux; `none` is a wildcard segment, or any method. -/
structure Row where
  method : Option Method
  pattern : List (Option String)
  handler : Handler

def routes : List Row :=
  [⟨some .post, [some "governance", some "decide"], .governanceDecide⟩,
    ⟨some .get, [some "governance", some "actions", none], .governanceGetAction⟩,
    ⟨some .delete, [some "threads", none], .deleteThread⟩,
    ⟨some .patch, [some "threads", none], .patchThread⟩,
    ⟨some .post, [some "threads", none, some "state"], .updateThreadState⟩,
    ⟨some .post, [some "threads", none, some "runs"], .createThreadRun⟩,
    ⟨some .post, [some "threads", none, some "runs", some "stream"], .createThreadRun⟩,
    ⟨some .post, [some "threads", none, some "runs", some "wait"], .createThreadRun⟩,
    ⟨some .post, [some "threads", none, some "runs", none, some "cancel"], .cancelThreadRun⟩,
    ⟨some .delete, [some "threads", none, some "runs", none], .deleteThreadRun⟩,
    ⟨some .post, [some "runs"], .createBackgroundRun⟩,
    ⟨some .post, [some "runs", some "stream"], .createBackgroundRun⟩,
    ⟨some .post, [some "runs", some "wait"], .createBackgroundRun⟩,
    ⟨some .delete, [some "runs", none], .deleteRun⟩,
    ⟨some .post, [some "runs", none, some "cancel"], .cancelRun⟩,
    ⟨some .post, [some "threads", none, some "commands"], .threadCommand⟩,
    ⟨some .get, [some "threads", none, some "websocket"], .threadWebSocket⟩,
    ⟨none, [some "mcp"], .mcp⟩,
    ⟨some .post, [some "admin-api", some "threads", none, some "runs", some "stream"],
      .adminCreateThreadRun⟩,
    ⟨some .post, [some "admin-api", some "runs", none, some "cancel"], .adminCancelRun⟩,
    ⟨some .delete, [some "admin-api", some "threads", none], .adminDeleteThread⟩,
    ⟨some .post, [some "admin-api", some "kill-switches"], .adminCreateKillSwitch⟩]

/-- What the wildcards stand for. A wildcard takes neither an empty segment nor a lone slash,
which the mux takes for the end of the path. -/
def matchSegments : List (Option String) → List String → Option (List String)
  | [], [] => some []
  | some lit :: ps, seg :: segs => if lit = seg then matchSegments ps segs else none
  | none :: ps, seg :: segs =>
    if seg = "" || seg = "/" then none else (matchSegments ps segs).map (seg :: ·)
  | _, _ => none

/-- A `GET` pattern serves `HEAD` too. -/
def Row.serves (row : Row) (method : Method) : Bool :=
  match row.method with
  | none => true
  | some .get => method = .get || method = .head
  | some m => method = m

/-- The handler of a request, with the path values. -/
def dispatch (method : Method) (target : List String) : Option (Handler × List String) :=
  routes.findSome? fun row =>
    if row.serves method then (matchSegments row.pattern target).map fun args => (row.handler, args)
    else none

/-- The middleware and the mux in a row : the handler, the path values, and the permissions that
the handler finds in its context, which are empty where nobody is authenticated. -/
def serve (strict : Bool) (permissions : Permissions) (method : Method) (target : List String) :
    Option (Handler × List String × Permissions) :=
  match admission strict permissions method (pieces target) with
  | .forbidden _ => none
  | .admitted => (dispatch method target).map fun found => (found.1, found.2, permissions)
  | _ => (dispatch method target).map fun found => (found.1, found.2, [])

/-! ## What the permissions are -/

def MayWrite (permissions : Permissions) : Prop :=
  "write" ∈ permissions ∨ "admin" ∈ permissions

def MayDecide (permissions : Permissions) : Prop :=
  governanceDecidePermission ∈ permissions ∨ "admin" ∈ permissions

/-- The caller may create runs of the agent. -/
def MayRun (permissions : Permissions) (agentId : String) : Prop :=
  "write" ∈ permissions ∨ "admin" ∈ permissions ∨
    agentRunPermPrefix ++ (agentId ++ agentRunPermSuffix) ∈ permissions

instance (permissions : Permissions) : Decidable (MayWrite permissions) :=
  inferInstanceAs (Decidable (_ ∨ _))

instance (permissions : Permissions) : Decidable (MayDecide permissions) :=
  inferInstanceAs (Decidable (_ ∨ _))

variable {strict : Bool} {permissions : Permissions} {method : Method} {path target : List String}

theorem mayRun_of_canRunAgent {agentId : String} (hne : permissions ≠ [])
    (htrim : trimSpace agentId = agentId) (h : canRunAgent permissions agentId) :
    MayRun permissions agentId := by
  have hany : permissions.any (fun p => p = "admin" || p = "write" ||
      p = agentRunPermission (trimSpace agentId)) := by
    simp only [canRunAgent, List.isEmpty_eq_false_iff.2 hne, Bool.false_or, Bool.and_eq_true] at h
    exact h.2
  obtain ⟨p, hp, hcase⟩ := List.any_eq_true.1 hany
  simp only [Bool.or_eq_true, decide_eq_true_eq, agentRunPermission, htrim] at hcase
  rcases hcase with (rfl | rfl) | rfl
  · exact .inr (.inl hp)
  · exact .inl hp
  · exact .inr (.inr hp)

section

variable (hne : permissions ≠ []) (h : authorized strict permissions method path = true)
include hne h

theorem mayWrite_of_authorized (hrequired : requiredPermission method path = "write")
    (hcreate : isRunCreatePath method path = false) : MayWrite permissions := by
  rw [authorized, List.isEmpty_eq_false_iff.2 hne, hrequired] at h
  obtain ⟨p, hp, hcase⟩ := List.any_eq_true.1 h
  simp only [hcreate, Bool.and_false, Bool.or_false, Bool.or_eq_true, decide_eq_true_eq,
    Bool.and_eq_true] at hcase
  rcases hcase with (rfl | rfl) | ⟨hread, -⟩
  · exact .inr hp
  · exact .inl hp
  · exact absurd hread (by decide)

theorem mayDecide_of_authorized (hgovernance : isGovernanceClientPath method path) :
    MayDecide permissions := by
  have hrequired : requiredPermission method path = governanceDecidePermission := by
    rw [requiredPermission, if_pos hgovernance]
  rw [authorized, List.isEmpty_eq_false_iff.2 hne, hrequired] at h
  obtain ⟨p, hp, hcase⟩ := List.any_eq_true.1 h
  have hread : (governanceDecidePermission = "read") = False := by decide
  have hwrite : (governanceDecidePermission = "write") = False := by decide
  simp only [hread, hwrite, decide_false, Bool.false_and, Bool.or_false, Bool.or_eq_true,
    decide_eq_true_eq] at hcase
  rcases hcase with rfl | rfl
  · exact .inr hp
  · exact .inl hp

end

theorem isAdmin_of_authorizedAdmin (hne : permissions ≠ [])
    (h : authorizedAdmin strict permissions) : "admin" ∈ permissions := by
  rw [authorizedAdmin, List.isEmpty_eq_false_iff.2 hne] at h
  obtain ⟨p, hp, hcase⟩ := List.any_eq_true.1 h
  have hread : ("admin" = "read") = False := by decide
  have hwrite : ("admin" = "write") = False := by decide
  simp only [hread, hwrite, decide_false, Bool.false_and, Bool.or_false, Bool.or_eq_true,
    decide_eq_true_eq, or_self] at hcase
  exact hcase ▸ hp

/-! ## Paths of the routes -/

theorem split_of_free {s : String} (h : Strings.Free '/' s) : split '/' s = [s] := by
  unfold split List.splitOn
  rw [List.splitOnP_eq_singleton]
  · simp
  · intro c hc
    have hne : c ≠ '/' := fun heq => h (heq ▸ hc)
    simpa using hne

/-- The pieces of a text put together again. -/
theorem toList_of_split {s : String} {l : List (List Char)}
    (h : split '/' s = l.map String.ofList) : s.toList = List.intercalate ['/'] l := by
  have hinj : Function.Injective String.ofList := by
    intro a b hab
    simpa using congrArg String.toList hab
  have hsplit : s.toList.splitOn '/' = l := List.map_injective_iff.2 hinj h
  rw [← hsplit, List.intercalate_splitOn]

theorem pieces_cons (seg : String) (target : List String) :
    pieces (seg :: target) = split '/' seg ++ pieces target := List.flatMap_cons

variable {lit : String}

theorem pieces_literal (h : Strings.Free '/' lit) (target : List String) :
    pieces (lit :: target) = lit :: pieces target := by
  rw [pieces_cons, split_of_free h, List.singleton_append]

theorem trimSlash_of_getLast? {last : String} (h : path.getLast? = some last) (hne : last ≠ "") :
    trimSlash path = path := by
  rw [trimSlash, h, if_neg]
  exact fun heq => hne (Option.some.inj heq)

theorem head?_of_isGovernanceClientPath (h : isGovernanceClientPath method path) :
    (trimSlash path).head? = some "governance" := by
  unfold isGovernanceClientPath at h
  simp only [Bool.or_eq_true, Bool.and_eq_true, decide_eq_true_eq] at h
  rcases h with ⟨-, h⟩ | ⟨-, h⟩
  · rw [h]
    rfl
  · split at h
    · rename_i heq
      rw [heq]
      rfl
    · cases h

theorem mutation_of_getLast? {first last : String} (hmethod : method ≠ .get ∧ method ≠ .head)
    (hfirst : path.head? = some first) (hne : first ≠ "governance")
    (hlast : path.getLast? = some last) (hword : last ∉ ["", "runs", "stream", "wait"]) :
    requiredPermission method path = "write" ∧ isRunCreatePath method path = false := by
  simp only [List.mem_cons, List.not_mem_nil, or_false, not_or] at hword
  have htrim : trimSlash path = path := trimSlash_of_getLast? hlast hword.1
  constructor
  · have hgovernance : isGovernanceClientPath method path = false := by
      by_contra h
      have hhead := head?_of_isGovernanceClientPath (Bool.not_eq_false _ ▸ h)
      rw [htrim, hfirst] at hhead
      exact hne (Option.some.inj hhead)
    rw [requiredPermission, hgovernance, if_neg Bool.false_ne_true, if_neg (by simp [hmethod])]
  · by_contra h
    simp only [isRunCreatePath, htrim, Bool.not_eq_false, Bool.and_eq_true] at h
    obtain ⟨-, h⟩ := h
    split at h <;> simp_all

theorem mutation_of_method (hmethod : method = .delete ∨ method = .patch) (path : List String) :
    requiredPermission method path = "write" ∧ isRunCreatePath method path = false := by
  rcases hmethod with rfl | rfl <;>
    simp [requiredPermission, isGovernanceClientPath, isRunCreatePath]

theorem isGovernanceClientPath_actions {id : String} (hempty : id ≠ "") (hslash : id ≠ "/") :
    isGovernanceClientPath .get (pieces ["governance", "actions", id]) := by
  have hpieces : pieces ["governance", "actions", id] =
      "governance" :: "actions" :: split '/' id := by
    rw [pieces_literal (by decide), pieces_literal (by decide), pieces_cons]
    simp [pieces]
  have hone : split '/' id ≠ [""] := by
    intro h
    have := toList_of_split (l := [[]]) (h.trans rfl)
    exact hempty (String.toList_injective (by simpa using this))
  have htwo : split '/' id ≠ ["", ""] := by
    intro h
    have := toList_of_split (l := [[], []]) (h.trans rfl)
    exact hslash (String.toList_injective (by simpa using this))
  have hnil : split '/' id ≠ [] := by simp [split]
  rw [hpieces]
  generalize split '/' id = l at hone htwo hnil
  obtain ⟨rest, last, rfl⟩ : ∃ rest last, l = rest ++ [last] :=
    ⟨_, _, (List.dropLast_append_getLast hnil).symm⟩
  by_cases hlast : last = ""
  · subst hlast
    have htrim : trimSlash ("governance" :: "actions" :: (rest ++ [""])) =
        "governance" :: "actions" :: rest := by
      simp [trimSlash, List.getLast?_cons, List.dropLast_cons_of_ne_nil]
    have hrest : rest ≠ [] ∧ rest ≠ [""] := by
      constructor <;> rintro rfl <;> simp at hone htwo
    simp [isGovernanceClientPath, htrim, hrest]
  · have htrim : trimSlash ("governance" :: "actions" :: (rest ++ [last])) =
        "governance" :: "actions" :: (rest ++ [last]) :=
      trimSlash_of_getLast? (by simp [List.getLast?_cons]) hlast
    simp [isGovernanceClientPath, htrim, hone]

/-! ## Requests that are served -/

variable {segs args : List String} {first : String} {ps : List (Option String)}

theorem matchSegments_nil : matchSegments [] segs = some args ↔ segs = [] ∧ args = [] := by
  cases segs <;> simp [matchSegments, eq_comm]

theorem matchSegments_literal : matchSegments (some lit :: ps) segs = some args ↔
      ∃ rest, segs = lit :: rest ∧ matchSegments ps rest = some args := by
  cases segs with
  | nil => simp [matchSegments]
  | cons seg rest =>
    by_cases h : lit = seg
    · simp [matchSegments, h]
    · simp [matchSegments, h, Ne.symm h]

theorem matchSegments_wildcard :
    matchSegments (none :: ps) segs = some args ↔ ∃ seg rest values, segs = seg :: rest ∧
      args = seg :: values ∧ seg ≠ "" ∧ seg ≠ "/" ∧ matchSegments ps rest = some values := by
  cases segs with
  | nil => simp [matchSegments]
  | cons seg rest =>
    by_cases h : seg = "" ∨ seg = "/"
    · rcases h with rfl | rfl <;> simp [matchSegments]
    · obtain ⟨hempty, hslash⟩ := not_or.1 h
      have hstep : matchSegments (none :: ps) (seg :: rest) =
          (matchSegments ps rest).map (seg :: ·) := by simp [matchSegments, hempty, hslash]
      rw [hstep, Option.map_eq_some_iff]
      constructor
      · rintro ⟨values, hvalues, rfl⟩
        exact ⟨seg, rest, values, rfl, rfl, hempty, hslash, hvalues⟩
      · rintro ⟨_, _, values, heq, rfl, -, -, hvalues⟩
        obtain ⟨rfl, rfl⟩ := List.cons.inj heq
        exact ⟨values, hvalues, rfl⟩

/-- What matches a pattern that ends with a word ends with it. -/
theorem ends_of_matchSegments {last : String} : ∀ (ps : List (Option String)) {segs args : List String},
    matchSegments (ps ++ [some last]) segs = some args → ∃ front, segs = front ++ [last]
  | [], _, _, h => by
    obtain ⟨_, rfl, hend⟩ := matchSegments_literal.1 h
    obtain ⟨rfl, -⟩ := matchSegments_nil.1 hend
    exact ⟨[], rfl⟩
  | some lit :: ps, _, _, h => by
    obtain ⟨_, rfl, hrest⟩ := matchSegments_literal.1 h
    obtain ⟨front, rfl⟩ := ends_of_matchSegments ps hrest
    exact ⟨lit :: front, rfl⟩
  | none :: ps, _, _, h => by
    obtain ⟨seg, _, _, rfl, -, -, -, hrest⟩ := matchSegments_wildcard.1 h
    obtain ⟨front, rfl⟩ := ends_of_matchSegments ps hrest
    exact ⟨seg :: front, rfl⟩

/-- The words that the paths of the client API start with. -/
def clientWords : List String := ["governance", "threads", "runs", "mcp"]

variable {pattern : Option Method} {identity : Permissions} {rest : List String} {second : String}

section

variable
  (hserved : ∀ message, admission strict permissions method (pieces target) ≠ .forbidden message)
include hserved

theorem admitted_client (hpath : pieces target = first :: rest) (hfirst : first ∈ clientWords) :
    admission strict permissions method (pieces target) = .admitted ∧
      authorized strict permissions method (pieces target) := by
  have hpublic : isPublicPath method (first :: rest) = false ∧
      isInternalPath (first :: rest) = false ∧ isAdminAPIPath (first :: rest) = false := by
    simp only [clientWords, List.mem_cons, List.not_mem_nil, or_false] at hfirst
    rcases hfirst with rfl | rfl | rfl | rfl <;>
      simp [isPublicPath, isInternalPath, isAdminAPIPath]
  rw [hpath] at hserved ⊢
  rw [admission, hpublic.1, hpublic.2.1, hpublic.2.2] at hserved ⊢
  cases hauth : authorized strict permissions method (first :: rest) with
  | true => simp
  | false =>
    rw [hauth] at hserved
    exact absurd rfl (hserved _)

theorem admitted_admin (hne : permissions ≠ [])
    (hpath : pieces target = "admin-api" :: second :: rest) (hsecond : second ≠ "session") :
    admission strict permissions method (pieces target) = .admitted ∧ "admin" ∈ permissions := by
  have hpublic : isPublicPath method ("admin-api" :: second :: rest) = false ∧
      isInternalPath ("admin-api" :: second :: rest) = false ∧
      isAdminAPIPath ("admin-api" :: second :: rest) := by
    simp [isPublicPath, isInternalPath, isAdminAPIPath, hsecond]
  rw [hpath] at hserved ⊢
  rw [admission, hpublic.1, hpublic.2.1, hpublic.2.2] at hserved ⊢
  cases hauth : authorizedAdmin strict permissions with
  | true => exact ⟨by simp, isAdmin_of_authorizedAdmin hne hauth⟩
  | false =>
    rw [hauth] at hserved
    exact absurd rfl (hserved _)

end

/-- What a caller whose request comes to the handler holds. The handlers that create runs leave
this to the admission gate, and `HEAD` gets to the lookup of an action without it. -/
def Handler.Permitted (permissions : Permissions) (method : Method) : Handler → Prop
  | .governanceDecide => MayDecide permissions
  | .governanceGetAction => method = .get → MayDecide permissions
  | .deleteThread | .patchThread | .updateThreadState | .cancelThreadRun | .deleteThreadRun
  | .deleteRun | .cancelRun => MayWrite permissions
  | .mcp => method = .post → MayWrite permissions
  | .adminCreateThreadRun | .adminCancelRun | .adminDeleteThread | .adminCreateKillSwitch =>
    "admin" ∈ permissions
  | .createThreadRun | .createBackgroundRun | .threadCommand | .threadWebSocket => True

/-- A route hands its caller's permissions on, and its handler is reached by those who hold what
it needs. -/
def Row.Sound (strict : Bool) (permissions : Permissions) (row : Row) : Prop :=
  ∀ method target args, row.serves method = true → matchSegments row.pattern target = some args →
    (∀ message, admission strict permissions method (pieces target) ≠ .forbidden message) →
    admission strict permissions method (pieces target) = .admitted ∧
      row.handler.Permitted permissions method

variable {handler : Handler}

/-- The handlers that need no more than to be reached with the caller's permissions. -/
theorem Row.sound_open (hfirst : first ∈ clientWords) (hfree : Strings.Free '/' first)
    (hopen : ∀ method, handler.Permitted permissions method) :
    Row.Sound strict permissions ⟨pattern, some first :: ps, handler⟩ := by
  intro method target args _ hmatch hserved
  obtain ⟨rest, rfl, -⟩ := matchSegments_literal.1 hmatch
  exact ⟨(admitted_client hserved (pieces_literal hfree rest) hfirst).1, hopen method⟩

section

variable (hne : permissions ≠ [])
include hne

theorem Row.sound_method {m : Method} (hfirst : first ∈ clientWords)
    (hfree : Strings.Free '/' first) (hm : m = .delete ∨ m = .patch)
    (hneeds : ∀ method, MayWrite permissions → handler.Permitted permissions method) :
    Row.Sound strict permissions ⟨some m, some first :: ps, handler⟩ := by
  intro method target args hserves hmatch hserved
  obtain ⟨rest, rfl, -⟩ := matchSegments_literal.1 hmatch
  obtain ⟨hadmitted, hauth⟩ := admitted_client hserved (pieces_literal hfree rest) hfirst
  have hmethod : method = .delete ∨ method = .patch := by
    rcases hm with rfl | rfl
    · exact .inl (of_decide_eq_true hserves)
    · exact .inr (of_decide_eq_true hserves)
  obtain ⟨hrequired, hcreate⟩ := mutation_of_method hmethod (pieces (first :: rest))
  exact ⟨hadmitted, hneeds method (mayWrite_of_authorized hne hauth hrequired hcreate)⟩

theorem Row.sound_word {first last : String} (ps : List (Option String))
    (hfirst : first ∈ clientWords) (hgovernance : first ≠ "governance")
    (hfree : Strings.Free '/' first) (hlast : Strings.Free '/' last)
    (hword : last ∉ ["", "runs", "stream", "wait"])
    (hneeds : ∀ method, MayWrite permissions → handler.Permitted permissions method) :
    Row.Sound strict permissions ⟨some .post, some first :: (ps ++ [some last]), handler⟩ := by
  intro method target args hserves hmatch hserved
  obtain ⟨_, rfl, hrest⟩ := matchSegments_literal.1 hmatch
  obtain ⟨front, rfl⟩ := ends_of_matchSegments ps hrest
  have hpath := pieces_literal hfree (front ++ [last])
  obtain ⟨hadmitted, hauth⟩ := admitted_client hserved hpath hfirst
  have hmutates : method ≠ .get ∧ method ≠ .head := by
    rw [show method = .post from of_decide_eq_true hserves]
    exact ⟨nofun, nofun⟩
  have hend : (pieces (first :: (front ++ [last]))).getLast? = some last := by
    have hsplit : pieces (first :: (front ++ [last])) = pieces (first :: front) ++ [last] := by
      rw [← List.cons_append, pieces, List.flatMap_append]
      simp [pieces, split_of_free hlast]
    rw [hsplit, List.getLast?_concat]
  obtain ⟨hrequired, hcreate⟩ :=
    mutation_of_getLast? hmutates (hpath ▸ List.head?_cons) hgovernance hend hword
  exact ⟨hadmitted, hneeds method (mayWrite_of_authorized hne hauth hrequired hcreate)⟩

/-- The handlers of the admin API. -/
theorem Row.sound_admin (hfree : Strings.Free '/' second) (hsecond : second ≠ "session")
    (hneeds : ∀ method, "admin" ∈ permissions → handler.Permitted permissions method) :
    Row.Sound strict permissions ⟨pattern, some "admin-api" :: some second :: ps, handler⟩ := by
  intro method target args _ hmatch hserved
  obtain ⟨_, rfl, hrest⟩ := matchSegments_literal.1 hmatch
  obtain ⟨rest, rfl, -⟩ := matchSegments_literal.1 hrest
  have hpath : pieces ("admin-api" :: second :: rest) = "admin-api" :: second :: pieces rest := by
    rw [pieces_literal (by decide), pieces_literal hfree]
  obtain ⟨hadmitted, hadmin⟩ := admitted_admin hserved hne hpath hsecond
  exact ⟨hadmitted, hneeds method hadmin⟩

theorem Row.sound_governanceDecide : Row.Sound strict permissions
    ⟨some .post, [some "governance", some "decide"], .governanceDecide⟩ := by
  intro method target args hserves hmatch hserved
  obtain ⟨_, rfl, hrest⟩ := matchSegments_literal.1 hmatch
  obtain ⟨_, rfl, hend⟩ := matchSegments_literal.1 hrest
  obtain ⟨rfl, -⟩ := matchSegments_nil.1 hend
  obtain ⟨hadmitted, hauth⟩ := admitted_client hserved
    (pieces_literal (by decide) ["decide"]) (by decide)
  obtain rfl : method = .post := of_decide_eq_true hserves
  exact ⟨hadmitted, mayDecide_of_authorized hne hauth (by decide)⟩

theorem Row.sound_governanceGetAction : Row.Sound strict permissions
    ⟨some .get, [some "governance", some "actions", none], .governanceGetAction⟩ := by
  intro method target args _ hmatch hserved
  obtain ⟨_, rfl, hrest⟩ := matchSegments_literal.1 hmatch
  obtain ⟨_, rfl, hid⟩ := matchSegments_literal.1 hrest
  obtain ⟨id, _, _, rfl, -, hempty, hslash, hend⟩ := matchSegments_wildcard.1 hid
  obtain ⟨rfl, -⟩ := matchSegments_nil.1 hend
  obtain ⟨hadmitted, hauth⟩ := admitted_client hserved
    (pieces_literal (by decide) ["actions", id]) (by decide)
  refine ⟨hadmitted, ?_⟩
  rintro rfl
  exact mayDecide_of_authorized hne hauth (isGovernanceClientPath_actions hempty hslash)

theorem Row.sound_mcp : Row.Sound strict permissions ⟨none, [some "mcp"], .mcp⟩ := by
  intro method target args _ hmatch hserved
  obtain ⟨_, rfl, hend⟩ := matchSegments_literal.1 hmatch
  obtain ⟨rfl, -⟩ := matchSegments_nil.1 hend
  obtain ⟨hadmitted, hauth⟩ := admitted_client hserved (pieces_literal (by decide) []) (by decide)
  refine ⟨hadmitted, ?_⟩
  rintro rfl
  exact mayWrite_of_authorized hne hauth (by decide) (by decide)

theorem Row.sound {row : Row} (h : row ∈ routes) : Row.Sound strict permissions row := by
  unfold routes at h
  fin_cases h
  -- most handlers need nothing, or what every path below `admin-api` needs
  all_goals try exact Row.sound_open (by decide) (by decide) fun _ => trivial
  all_goals try exact Row.sound_admin hne (by decide) (by decide) fun _ h => h
  all_goals try exact Row.sound_method hne (by decide) (by decide) (.inl rfl) fun _ h => h
  · exact Row.sound_governanceDecide hne
  · exact Row.sound_governanceGetAction hne
  · exact Row.sound_method hne (by decide) (by decide) (.inr rfl) fun _ h => h
  · exact Row.sound_word hne [none] (by decide) (by decide) (by decide) (by decide) (by decide)
      fun _ h => h
  · exact Row.sound_word hne [none, some "runs", none] (by decide) (by decide) (by decide)
      (by decide) (by decide) fun _ h => h
  · exact Row.sound_word hne [none] (by decide) (by decide) (by decide) (by decide) (by decide)
      fun _ h => h
  · exact Row.sound_mcp hne

end

variable {args : List String}
  (h : serve strict permissions method target = some (handler, args, identity))
include h

/-- The middleware lets through what is served, and the mux finds the handler. -/
theorem dispatch_of_serve :
    (∀ message, admission strict permissions method (pieces target) ≠ .forbidden message) ∧
      dispatch method target = some (handler, args) := by
  unfold serve at h
  split at h
  · cases h
  · rename_i hadmitted
    obtain ⟨⟨_, _⟩, hdispatch, heq⟩ := Option.map_eq_some_iff.1 h
    cases heq
    exact ⟨fun message => by rw [hadmitted]; nofun, hdispatch⟩
  · rename_i hforbidden _
    obtain ⟨⟨_, _⟩, hdispatch, heq⟩ := Option.map_eq_some_iff.1 h
    cases heq
    exact ⟨hforbidden, hdispatch⟩

/-- Whoever comes to a handler holds what it needs, and the handler finds the caller's own
permissions. -/
theorem permitted_of_serve (hne : permissions ≠ []) :
    identity = permissions ∧ handler.Permitted permissions method := by
  obtain ⟨hserved, hdispatch⟩ := dispatch_of_serve h
  obtain ⟨_, hrow, hmatch⟩ := List.exists_of_findSome?_eq_some hdispatch
  split_ifs at hmatch with hserves
  obtain ⟨_, hsegments, heq⟩ := Option.map_eq_some_iff.1 hmatch
  obtain ⟨rfl, rfl⟩ := Prod.mk.inj heq
  obtain ⟨hadmitted, hpermitted⟩ := Row.sound hne hrow method target _ hserves hsegments hserved
  refine ⟨?_, hpermitted⟩
  rw [serve, hadmitted, hdispatch] at h
  exact (Prod.mk.inj (Prod.mk.inj (Option.some.inj h)).2).2.symm

end Runkite
