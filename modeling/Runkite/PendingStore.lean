import Runkite.BindArgs
import Runkite.Store

/-!
# Pending actions

A tool call that policy holds back is recorded as a pending action, bound to the call's tenant,
agent, run, generation, connector, tool and argument digest (`CallScope`). An operator approves
or denies it, an action with an expiry is denied when it passes, and an approved action without
one can be consumed once by a call with the same scope.

The statements of the SQLite store are functions on `PendingTable`, whose unique nullable column
`pending_key` holds the scope of an open action. `CreatePendingAction` and
`ConsumeApprovedAction` take several statements, between which those of other callers may come :
`Creation` and `Consumption` are such calls in progress, and `PendingStore.step` lets any caller
make its next statement.

Times are nanoseconds since the zero time where the code compares them, and the texts that the
store writes elsewhere. Expiries are stored in seconds.
-/

open Binary64 (Decimal)
open Json (Members Text Value traverse traverseMembers)
open Transaction (Body Driver query transact write)

namespace Runkite

/-! ## Rows -/

/-- What an approval is bound to. -/
structure CallScope where
  tenantId : String
  agentId : String
  runId : String
  generation : ℤ
  connector : String
  tool : String
  argsDigest : String
deriving DecidableEq, Repr

inductive PendingStatus where
  | pending
  | approved
  | denied
  | consumed
deriving DecidableEq, Repr

/-- A row of `pending_actions`. -/
structure PendingAction extends CallScope where
  id : String
  ruleId : String
  reason : String
  reasonCode : String
  status : PendingStatus
  args : Text
  decidedBy : String
  createdAt : String
  updatedAt : String
  /-- NULL in connector rows; a row with an expiry is an embedded one. -/
  expiresAt : Option ℕ
  pendingKey : Option String

abbrev PendingTable :=
  UniqueTable PendingAction String String PendingAction.id PendingAction.pendingKey

abbrev Time := ℕ

/-- A zero time is written as NULL. -/
def formatExpiry : Option Time → Option ℕ
  | none => none
  | some t => if t = 0 then none else some (t / 10 ^ 9)

def marshalPendingArgs : Option (Members Decimal) → Text
  | none => .document (.object [])
  | some ms => .document ((traverse some Members.sortKeys (.object ms)).getD (.object []))

/-- An empty map is read back as none. -/
def unmarshalPendingArgs : Text → Option (Members Decimal)
  | .document (.object ms) =>
    match (traverseMembers some Members.lastWins ms).map Members.lastWins with
    | some (m :: ms) => some (m :: ms)
    | _ => none
  | _ => none

/-! ## New actions -/

/-- The argument of `CreatePendingAction`. -/
structure NewAction extends CallScope where
  id : String
  ruleId : String
  reason : String
  reasonCode : String
  /-- `none` is the empty string. -/
  status : Option PendingStatus
  args : Option (Members Decimal)
  expiresAt : Option Time

def scopeKey (sha256 : Sha256) (scope : CallScope) (embedded : Bool) : String :=
  sha256 "" (.array [.string scope.tenantId, .string scope.agentId, .bool embedded,
    .string scope.runId, .number scope.generation, .string scope.connector, .string scope.tool,
    .string scope.argsDigest])

namespace NewAction

def effectiveStatus (a : NewAction) : PendingStatus := a.status.getD .pending

def pendingActionKey (sha256 : Sha256) (a : NewAction) : String :=
  scopeKey sha256 a.toCallScope a.expiresAt.isSome

/-- The key that an open action is inserted with; others have none. -/
def openKey (sha256 : Sha256) (a : NewAction) : Option String :=
  if a.effectiveStatus = .pending then some (a.pendingActionKey sha256) else none

/-- The row that is inserted. -/
def row (sha256 : Sha256) (now : String) (a : NewAction) : PendingAction where
  toCallScope := a.toCallScope
  id := a.id
  ruleId := a.ruleId
  reason := a.reason
  reasonCode := a.reasonCode
  status := a.effectiveStatus
  args := marshalPendingArgs a.args
  decidedBy := ""
  createdAt := now
  updatedAt := now
  expiresAt := formatExpiry a.expiresAt
  pendingKey := a.openKey sha256

end NewAction

/-- An embedded approval stays pending for a day. -/
def governancePendingTTL : Time := 24 * 60 * 60 * 10 ^ 9

def pendingActionIdPrefix : String := "pending-v2-"

/-- What a caller of `persistPendingAction` hands in. -/
structure Submission where
  scope : CallScope
  args : Option (Members Decimal)
  ruleId : String := ""
  reason : String := ""
  reasonCode : String := ""
  /-- The governance endpoint sets an expiry, the connector proxy does not. -/
  embedded : Bool := false
  suffix : String

namespace Submission

def expiresAt (now : Time) (s : Submission) : Option Time :=
  if s.embedded then some (now + governancePendingTTL) else none

/-- The action that is created at time `now`. -/
def action (sha256 : Sha256) (now : Time) (s : Submission) : NewAction where
  toCallScope := { s.scope with
    argsDigest := if s.scope.argsDigest = "" then emptyDigest sha256 else s.scope.argsDigest }
  id := pendingActionIdPrefix ++ s.suffix
  ruleId := s.ruleId
  reason := s.reason
  reasonCode := if s.reasonCode = "" then "policy_pending" else s.reasonCode
  status := some .pending
  args := s.args
  expiresAt := s.expiresAt now

end Submission

/-- What `persistPendingAction` creates; it refuses a call without a run. -/
def persistPendingAction (sha256 : Sha256) (now : Time) (s : Submission) : Option NewAction :=
  if s.scope.runId = "" then none else some (s.action sha256 now)

/-! ## Statements -/

/-- `ORDER BY created_at ASC LIMIT 1`. -/
def oldest : List PendingAction → Option PendingAction
  | [] => none
  | r :: rows =>
    match oldest rows with
    | some r' => if r'.createdAt < r.createdAt then some r' else some r
    | none => some r

/-- `SET status = ?, updated_at = ?, …, pending_key = NULL`, with the columns that only some of
the updates set. -/
def PendingAction.settle (status : PendingStatus) (now : String)
    (decidedBy reasonCode : Option String) (r : PendingAction) : PendingAction :=
  { r with
    status := status
    updatedAt := now
    decidedBy := decidedBy.getD r.decidedBy
    reasonCode := reasonCode.getD r.reasonCode
    pendingKey := none }

namespace PendingTable

/-- `FindOpenPendingAction`. -/
def findOpen (t : PendingTable) (scope : CallScope) (embedded : Bool) : Option PendingAction :=
  oldest (t.rows.filter fun r =>
    r.toCallScope = scope && r.status = .pending && r.expiresAt.isSome = embedded)

/-- The `SELECT` of `ConsumeApprovedAction`. -/
def findApproved (t : PendingTable) (scope : CallScope) : Option PendingAction :=
  oldest (t.rows.filter fun r =>
    r.toCallScope = scope && r.status = .approved && r.expiresAt.isNone)

/-- `INSERT … ON CONFLICT (pending_key) DO NOTHING`. -/
def insertAction (t : PendingTable) (r : PendingAction) : Except StoreError (Unit × PendingTable) :=
  match t.insertOrIgnore r with
  | some t' => .ok ((), t')
  | none => .error (.statement "UNIQUE constraint failed: pending_actions.id")

def getPendingAction (t : PendingTable) (id : String) : Except StoreError PendingAction :=
  match t.get? id with
  | some r => .ok r
  | none => .error (.notFound "pending_action" id)

/-- `UPDATE pending_actions SET …` where `p` holds : whether a row was affected. -/
def setStatus (t : PendingTable) (p : PendingAction → Bool) (status : PendingStatus) (now : String)
    (decidedBy reasonCode : Option String) : Bool × PendingTable :=
  (t.rows.any p,
    t.update p (.settle status now decidedBy reasonCode) (fun _ => rfl) fun _ => rfl)

theorem get?_setStatus (t : PendingTable) (p : PendingAction → Bool) (status : PendingStatus)
    (now : String) (decidedBy reasonCode : Option String) (id : String) :
    (t.setStatus p status now decidedBy reasonCode).2.get? id =
      (t.get? id).map fun r => if p r then r.settle status now decidedBy reasonCode else r :=
  t.toTable.get?_update p (.settle status now decidedBy reasonCode) (fun _ => rfl) id

/-- The condition of `SetPendingActionStatus` and of the update that consumes. -/
def isIn (id : String) (status : PendingStatus) (r : PendingAction) : Bool :=
  r.id = id && r.status = status

/-- The condition of `SetPendingActionApproved`. -/
def approvable (id : String) (time : Time) (r : PendingAction) : Bool :=
  r.id = id && r.status = .pending &&
    match r.expiresAt, formatExpiry (some time) with
    | none, _ => true
    | some e, some n => n < e
    | some _, none => false

/-- The condition of `ExpireGovernancePending`. -/
def lapsed (time : Time) (r : PendingAction) : Bool :=
  r.status = .pending && r.expiresAt.any fun e => e ≤ time / 10 ^ 9

def setPendingActionStatus (t : PendingTable) (id : String) (fromStatus toStatus : PendingStatus)
    (now : String) : Bool × PendingTable :=
  t.setStatus (isIn id fromStatus) toStatus now none none

def setPendingActionApproved (t : PendingTable) (id decidedBy now : String) (time : Time) :
    Bool × PendingTable :=
  t.setStatus (approvable id time) .approved now (some decidedBy) none

def expireGovernancePending (t : PendingTable) (now : String) (time : Time) :
    Bool × PendingTable :=
  t.setStatus (lapsed time) .denied now none (some "pending_expired")

/-- The `UPDATE` of `ConsumeApprovedAction`. -/
def markConsumed (t : PendingTable) (id now : String) : Bool × PendingTable :=
  t.setStatus (isIn id .approved) .consumed now none none

end PendingTable

/-! ## Calls of several statements -/

/-- What a statement depends on besides the table : the clock and the driver. -/
structure StoreCall where
  now : String := ""
  time : Time := 0
  driver : Driver StoreError := {}

inductive CreatePhase where
  | find
  | insert
  | refind
  | get
  | done (result : Except StoreError String)

/-- A call of `CreatePendingAction` in progress. -/
structure Creation where
  action : NewAction
  now : String
  phase : CreatePhase

namespace Creation

def goto (c : Creation) (phase : CreatePhase) : Creation := { c with phase := phase }

def findOpen (c : Creation) (call : StoreCall) (t : PendingTable) :
    Except StoreError (Option PendingAction) :=
  query call.driver (fun t : PendingTable =>
    .ok (t.findOpen c.action.toCallScope c.action.expiresAt.isSome)) t

/-- The next statement of `CreatePendingAction`. -/
def next (sha256 : Sha256) (call : StoreCall) (c : Creation) (t : PendingTable) :
    Creation × PendingTable :=
  match c.phase with
  | .find =>
    if c.action.effectiveStatus = .pending then
      match c.findOpen call t with
      | .error e => (c.goto (.done (.error e)), t)
      | .ok (some existing) => (c.goto (.done (.ok existing.id)), t)
      | .ok none => (c.goto .insert, t)
    else (c.goto .insert, t)
  | .insert =>
    match write call.driver (fun t : PendingTable => t.insertAction (c.action.row sha256 c.now)) t with
    | (.error e, t') => (c.goto (.done (.error e)), t')
    | (.ok _, t') =>
      if (c.action.openKey sha256).isSome then (c.goto .refind, t')
      else (c.goto (.done (.ok c.action.id)), t')
  | .refind =>
    match c.findOpen call t with
    | .error e => (c.goto (.done (.error e)), t)
    | .ok (some existing) => (c.goto (.done (.ok existing.id)), t)
    | .ok none => (c.goto .get, t)
  | .get =>
    match query call.driver (fun t : PendingTable => t.getPendingAction c.action.id) t with
    | .error e => (c.goto (.done (.error e)), t)
    | .ok _ => (c.goto (.done (.ok c.action.id)), t)
  | .done _ => (c, t)

end Creation

inductive ConsumePhase where
  | select
  | update (id : String)
  /-- The result is the consumed action's id, or none. -/
  | done (result : Except StoreError (Option String))

/-- A call of `ConsumeApprovedAction` in progress. -/
structure Consumption where
  scope : CallScope
  phase : ConsumePhase

namespace Consumption

/-- A call without a digest consumes nothing. -/
def start (scope : CallScope) : Consumption :=
  ⟨scope, if scope.argsDigest = "" then .done (.ok none) else .select⟩

def goto (c : Consumption) (phase : ConsumePhase) : Consumption := { c with phase := phase }

/-- The next statement of `ConsumeApprovedAction`; the commit belongs to the last one, and is
not reached if no row was affected. -/
def next (call : StoreCall) (c : Consumption) (t : PendingTable) : Consumption × PendingTable :=
  match c.phase with
  | .select =>
    match query call.driver (fun t : PendingTable => .ok (t.findApproved c.scope)) t with
    | .error e => (c.goto (.done (.error e)), t)
    | .ok none => (c.goto (.done (.ok none)), t)
    | .ok (some r) => (c.goto (.update r.id), t)
  | .update id =>
    match transact (Body.statement (fun t : PendingTable => .ok (t.markConsumed id call.now))
        Body.done) (fun affected => affected) call.driver t with
    | (.error e, t') => (c.goto (.done (.error e)), t')
    | (.ok affected, t') => (c.goto (.done (.ok (if affected then some id else none))), t')
  | .done _ => (c, t)

/-- The action that the call has consumed. -/
def consumed? (c : Consumption) : Option String :=
  match c.phase with
  | .done (.ok id) => id
  | _ => none

end Consumption

/-! ## The store -/

/-- The table and the calls in progress. -/
structure PendingStore where
  table : PendingTable
  creations : List Creation
  consumptions : List Consumption

/-- A caller starts a call or makes its next statement. The calls of one statement are the
operator's decisions and the sweep. -/
inductive PendingEvent where
  | create (s : Submission) (call : StoreCall)
  | createNext (i : ℕ) (call : StoreCall)
  | consume (scope : CallScope)
  | consumeNext (i : ℕ) (call : StoreCall)
  | approve (id decidedBy : String) (call : StoreCall)
  | deny (id : String) (call : StoreCall)
  | expire (call : StoreCall)

namespace PendingStore

/-- No action and no call. -/
def empty : PendingStore := ⟨.empty, [], []⟩

/-- An update that cannot fail by itself, through the driver. -/
def exec (s : PendingStore) (call : StoreCall) (f : PendingTable → Bool × PendingTable) :
    PendingStore :=
  { s with table := (write call.driver (fun t => .ok (f t)) s.table).2 }

def step (sha256 : Sha256) : PendingEvent → PendingStore → PendingStore
  | .create sub call, s =>
    match persistPendingAction sha256 call.time sub with
    | some a => { s with creations := s.creations ++ [⟨a, call.now, .find⟩] }
    | none => s
  | .createNext i call, s =>
    match s.creations[i]? with
    | some c =>
      let (c', t) := c.next sha256 call s.table
      { s with table := t, creations := s.creations.set i c' }
    | none => s
  | .consume scope, s => { s with consumptions := s.consumptions ++ [.start scope] }
  | .consumeNext i call, s =>
    match s.consumptions[i]? with
    | some c =>
      let (c', t) := c.next call s.table
      { s with table := t, consumptions := s.consumptions.set i c' }
    | none => s
  | .approve id decidedBy call, s =>
    s.exec call fun t => t.setPendingActionApproved id decidedBy call.now call.time
  | .deny id call, s => s.exec call fun t => t.setPendingActionStatus id .pending .denied call.now
  | .expire call, s => s.exec call fun t => t.expireGovernancePending call.now call.time

end PendingStore

end Runkite
