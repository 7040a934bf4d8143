import Runkite.RunCreate
import Runkite.RedisQueue
import Runkite.Strings
import Runkite.Trace

/-!
# Requests in flight

The handlers that create, cancel and delete runs and copy threads, as state machines whose
steps are the single calls they make to the store and to the queue. A `World` holds the
database, the queue and the requests in flight; any request can take the next step at any
time, and one whose replica crashed takes none. Attempts, completions, the queue's own
scripts and the retention job are steps of their own.

`Create.next` follows `createRunCtx` and `rollbackCreatedRun` call by call : the pre-check of
a retry, the rewrite of the agent, the thread, the cached answer, the claim, the insertion,
the enqueue, and on each failure path the release that belongs to it. Every call to the store
goes through a `Driver`, which can refuse it, or let it take effect and lose the
acknowledgement.
-/

open Json (Members Number Text Value marshal unmarshalMap)
open Transaction (Body Driver select transact)

namespace Runkite

/-! ## Calls -/

/-- How a call to the queue ends : delivered, refused, or delivered with the
acknowledgement lost. -/
inductive Delivery where
  | done
  | failed
  | lost
deriving DecidableEq, Repr

/-- What a step depends on besides the state. -/
structure Env where
  now : String := ""
  millis : ℤ := 0
  driver : Driver StoreError := {}
  /-- The random number of an alias pick. -/
  rand : ℕ := 0
  /-- What the usage store answers about the day of an agent, or of all of them (`""`). -/
  sums : String → UsageSums := fun _ => {}
  /-- The refusal of a check that reads no run and no thread : validation, the agent lookup,
  the rate limit, the admission gate. -/
  refusal : Option StoreError := none
  runnerKind : String := "python-langgraph"
  /-- The output found in the result cache. -/
  cached : Option Text := none
  cacheKey : Option String := none
  manifest : Value Number := .null
  caps : Option RunAdmissionCaps := none
  /-- The error of `finalizeCommittedRun`. -/
  finalization : Option StoreError := none
  enqueue : Delivery := .done
  cancelUsage : Option (Members Number) := none

namespace Env

variable {α : Type}

/-- A call that reads. -/
def query (env : Env) (f : Db → Except StoreError α) (db : Db) : Except StoreError α :=
  (transact (select f) (fun _ => false) env.driver db).1

/-- A call that writes with one statement. -/
def write (env : Env) (f : Db → Except StoreError (α × Db)) (db : Db) : Except StoreError α × Db :=
  transact (Body.statement f Body.done) (fun _ => true) env.driver db

end Env

/-- `GetRun`. -/
def fetchRun (ctx : Ctx) (runId : String) (db : Db) : Except StoreError Run :=
  match db.getRun ctx runId with
  | some r => .ok r
  | none => .error (.notFound "run" runId)

/-- `GetThread`; the values of the row have to decode. -/
def fetchThread (ctx : Ctx) (threadId : String) (db : Db) :
    Except StoreError (Thread × Option (Members Number)) :=
  match db.getThread ctx threadId with
  | some t =>
    match unmarshalMap Json.decodeNumber t.values with
    | some values => .ok (t, values)
    | none => .error .json
  | none => .error (.notFound "thread" threadId)

/-- `CreateThread`. -/
def insertThread (t : Thread) (db : Db) : Except StoreError (Unit × Db) :=
  match db.threads.insert t with
  | some threads => .ok ((), { db with threads := threads })
  | none => .error (.conflict "thread" t.threadId "")

/-! ## Creating a run -/

inductive Response where
  | created (run : NewRun)
  /-- The run that an earlier request created. -/
  | existing (run : Run)
  /-- The conflict of a request whose fingerprint differs. -/
  | mismatch (m : Mismatch)
  | error (e : StoreError)

/-- The error that a request with this run id is answered with. -/
def Response.error? (runId : String) : Response → Option StoreError
  | .mismatch m => some (m.conflict runId)
  | .error e => some e
  | _ => none

/-- The request is answered with a run. -/
def Response.isRun : Response → Bool
  | .created _ | .existing _ => true
  | _ => false

/-- Where a create request stands : the call it makes next. -/
inductive Phase where
  | arrived
  | resolve
  | ensureThread
  | createThread
  | regetThread (e : StoreError)
  | cached
  | cachedReload
  | cachedFallback (e : StoreError)
  | claim
  | busyFallback
  | parent (runId : String)
  | siblings (parent : Run)
  | insert (parent : Option Run)
  | insertFallback (e : StoreError)
  | unclaim (retried : Bool) (response : Response)
  | enqueue (run : NewRun)
  | rollbackStatus (retried : Bool)
  | rollbackRelease (retried : Bool)
  | done (response : Response)

/-- A create request. `req` is the body as `createRunCtx` has rewritten it so far. -/
structure Create where
  ctx : Ctx
  req : RunCreate
  /-- The thread of the request, or a fresh one. -/
  threadId : String
  /-- The run id of the request, or a fresh one. -/
  runId : String
  requestedAlias : String := ""
  createdAt : String := ""
  phase : Phase := .arrived

namespace Create

/-- A create request as it arrives, with the ids to use where it gives none. -/
def arrive (ctx : Ctx) (req : RunCreate) (freshThread freshRun now : String) : Create where
  ctx := ctx
  req := req
  threadId := if req.threadId = "" then freshThread else req.threadId
  runId := if req.runId = "" then freshRun else req.runId
  createdAt := now

def goto (c : Create) (phase : Phase) : Create := { c with phase := phase }

def respond (c : Create) (response : Response) : Create := c.goto (.done response)

/-- `RunIsSimulation`, on what the metadata has under `simulation`. -/
def simulationFlag {ν : Type} : Option (Value ν) → Bool
  | some (.bool b) => b
  | some (.string s) => Strings.toLower (Strings.trimSpace s) ∈ ["true", "1", "yes"]
  | _ => false

def isSimulation (r : Run) : Bool := simulationFlag (r.metadata.member "simulation")

/-- The members of a run's metadata that are there under a condition. -/
def metadataMember (key : String) (v : Option (Value Number)) : Members Number :=
  match v with
  | some v => [(key, v)]
  | none => []

def aliasMember (c : Create) : Members Number :=
  metadataMember "requested_alias" (if c.requestedAlias = "" then none else some (.string c.requestedAlias))

/-- The run `createRunCtx` builds. -/
def newRun (c : Create) (env : Env) (parent : Option Run) : NewRun where
  runId := c.runId
  threadId := c.threadId
  agentId := c.req.agentId
  status := .pending
  metadata := some (c.aliasMember ++
    metadataMember "cache_key" (if c.req.resume then none else env.cacheKey.map .string) ++
    [("run_manifest", env.manifest)] ++
    metadataMember "simulation"
      (if c.req.simulation || parent.elim false isSimulation then some (.bool true) else none))
  input := rawText c.req.input
  config := rawText c.req.config
  createdAt := c.createdAt
  updatedAt := c.createdAt
  parentRunId := c.req.parentRunId
  rootRunId := parent.map fun p => p.rootRunId.getD p.runId
  depth := parent.elim 0 fun p => p.depth + 1

/-- The run `tryServeCachedRun` builds. -/
def cachedRun (c : Create) (env : Env) (output : Text) : NewRun where
  runId := c.runId
  threadId := c.threadId
  agentId := c.req.agentId
  status := .success
  metadata := some (("cache_hit", .bool true) :: ("run_manifest", env.manifest) :: c.aliasMember)
  input := rawText c.req.input
  config := rawText c.req.config
  output := output
  createdAt := c.createdAt
  updatedAt := c.createdAt

/-- The thread `createRunCtx` creates. -/
def newThread (c : Create) : Thread where
  tenantId := c.ctx.tenant
  threadId := c.threadId
  status := .idle
  values := .document .null
  version := 1
  updatedAt := c.createdAt

end Create

def Run.isCacheHit (r : Run) : Bool :=
  match r.metadata.member "cache_hit" with
  | some (.bool b) => b
  | _ => false

/-- `findRunForRetry`, with what to answer if there is a run. -/
def findRunForRetry (srv : Server) (env : Env) (ctx : Ctx) (req : RunCreate)
    (effectiveThreadId : String) (db : Db) : Option Response :=
  if req.runId = "" then none
  else
    match env.query (fetchRun ctx req.runId) db with
    | .error _ => none
    | .ok run =>
      match fingerprintMismatch srv run req effectiveThreadId with
      | some m => some (.mismatch m)
      | none =>
        match run.isCacheHit && run.status.terminal, env.finalization with
        | true, some e => some (.error e)
        | _, _ => some (.existing run)

namespace Create

/-- The two race fallbacks : what to answer if the run of the request exists by now. -/
def raceFallback (srv : Server) (env : Env) (c : Create) (db : Db) : Option Response :=
  if c.req.runId = "" then none
  else
    match env.query (fetchRun c.ctx c.req.runId) db with
    | .error _ => none
    | .ok existing =>
      match fingerprintMismatch srv existing c.req c.threadId with
      | some m => some (.mismatch m)
      | none => some (.existing existing)

/-- The rewrite of the agent and the checks up to the admission gate. -/
def resolve (srv : Server) (env : Env) (c : Create) : Create :=
  match env.refusal with
  | some e => c.respond (.error e)
  | none =>
    let (agentId, requestedAlias) := srv.route env.rand env.sums c.ctx.tenant c.req.agent
    { c with
      req := { c.req with agentId := agentId }
      requestedAlias := requestedAlias
      phase := .ensureThread }

/-- `tryServeCachedRun`, up to its insertion. -/
def tryServeCached (srv : Server) (env : Env) (c : Create) (db : Db) : Create × Db :=
  match c.req.resume || c.req.parentRunId.isSome || c.req.simulation, env.cached with
  | false, some output =>
    match createCachedRun srv.dialect c.ctx (c.cachedRun env output) env.caps env.now env.driver db with
    | (.ok _, db) => (c.goto .cachedReload, db)
    | (.error e, db) => (c.goto (.cachedFallback e), db)
  | _, _ => (c.goto .claim, db)

/-- The claim of the thread. -/
def tryClaim (env : Env) (c : Create) (db : Db) : Create × Db :=
  match env.write (fun db => .ok (db.tryClaimThread c.ctx c.threadId env.now)) db with
  | (.error e, db) => (c.respond (.error e), db)
  | (.ok false, db) => (c.goto .busyFallback, db)
  | (.ok true, db) =>
    match c.req.parentRunId with
    | some parent => (c.goto (.parent parent), db)
    | none => (c.goto (.insert none), db)

/-- The lookup of the parent of a delegated run. -/
def checkParent (srv : Server) (env : Env) (c : Create) (parentRunId : String) (db : Db) : Create :=
  match env.query (fetchRun c.ctx parentRunId) db with
  | .error e => c.goto (.unclaim false (.error e))
  | .ok parent =>
    let depth := parent.depth + 1
    let maxDepth := srv.a2aMaxDepthOrDefault
    if maxDepth < depth then
      c.goto (.unclaim false (.error (.message
        s!"a2a delegation depth {depth} exceeds max_depth {maxDepth}")))
    else c.goto (.siblings parent)

/-- The count of the parent's children. -/
def checkSiblings (srv : Server) (env : Env) (c : Create) (parent : Run) (db : Db) : Create :=
  let children : Run → Bool := fun r => r.parentRunId = some parent.runId && c.ctx.sees r.tenantId
  match env.query (fun db => .ok (db.runs.count children)) db with
  | .error e => c.goto (.unclaim false (.error e))
  | .ok n =>
    let maxBreadth := srv.a2aMaxBreadthOrDefault
    if maxBreadth ≤ n then
      let parentRunId := parent.runId
      c.goto (.unclaim false (.error (.message
        s!"a2a parent {parentRunId} already has {maxBreadth} direct children (max_breadth {maxBreadth})")))
    else c.goto (.insert (some parent))

/-- What a write that `tryStatusTransition` makes is followed by : one more try after an
error, and then the rest in either case. -/
def transition (c : Create) (retried : Bool) (again next : Phase) :
    Except StoreError Unit × Db → Create × Db
  | (.ok _, db) => (c.goto next, db)
  | (.error _, db) => (c.goto (if retried then next else again), db)

/-- The next call of a create request to the store. -/
def next (srv : Server) (env : Env) (c : Create) (db : Db) : Create × Db :=
  match c.phase with
  | .arrived =>
    match findRunForRetry srv env c.ctx c.req c.req.threadId db with
    | some response => (c.respond response, db)
    | none => (c.goto .resolve, db)
  | .resolve => (c.resolve srv env, db)
  | .ensureThread =>
    match env.query (fetchThread c.ctx c.threadId) db with
    | .ok _ => (c.goto .cached, db)
    | .error e =>
      if c.req.ifNotExists = .other then (c.respond (.error e), db) else (c.goto .createThread, db)
  | .createThread =>
    match env.write (insertThread c.newThread) db with
    | (.ok _, db) => (c.goto .cached, db)
    | (.error e, db) => (c.goto (.regetThread e), db)
  | .regetThread e =>
    match env.query (fetchThread c.ctx c.threadId) db with
    | .ok _ => (c.goto .cached, db)
    | .error _ => (c.respond (.error e), db)
  | .cached => c.tryServeCached srv env db
  | .cachedReload =>
    match env.query (fetchRun c.ctx c.runId) db, env.finalization with
    | .ok run, none => (c.respond (.existing run), db)
    | .ok _, some e => (c.respond (.error e), db)
    | .error e, _ => (c.respond (.error e), db)
  | .cachedFallback e =>
    (c.respond ((findRunForRetry srv env c.ctx c.req c.threadId db).getD (.error e)), db)
  | .claim => c.tryClaim env db
  | .busyFallback =>
    (c.respond ((c.raceFallback srv env db).getD
      (.error (.conflict "thread" c.threadId "is busy"))), db)
  | .parent runId => (c.checkParent srv env runId db, db)
  | .siblings parent => (c.checkSiblings srv env parent db, db)
  | .insert parent =>
    match createRunAdmitted c.ctx (c.newRun env parent) env.caps env.driver db with
    | (.ok _, db) => (c.goto (.enqueue (c.newRun env parent)), db)
    | (.error e, db) => (c.goto (.insertFallback e), db)
  | .insertFallback e =>
    (c.goto (.unclaim false ((c.raceFallback srv env db).getD (.error e))), db)
  | .unclaim retried response =>
    c.transition retried (.unclaim true response) (.done response)
      (env.write (fun db => .ok ((), db.setThreadStatus c.ctx c.threadId .idle env.now)) db)
  | .enqueue run =>
    match env.enqueue with
    | .done => (c.respond (.created run), db)
    | _ => (c.goto (.rollbackStatus false), db)
  | .rollbackStatus retried =>
    c.transition retried (.rollbackStatus true) (.rollbackRelease false)
      (env.write (fun db => .ok ((), db.updateRunStatus c.ctx c.runId .error none "enqueue failed"
        env.now)) db)
  | .rollbackRelease retried =>
    c.transition retried (.rollbackRelease true)
      (.done (.error (.message "failed to enqueue run")))
      (env.write (fun db => .ok ((),
        (db.releaseThreadIfNoOtherActive c.ctx c.threadId c.runId .idle env.now).2)) db)
  | .done _ => (c, db)

/-- `Enqueue` : a canceled run is not pushed. -/
def enqueueJob (env : Env) (c : Create) (redis : Redis) : Redis :=
  match redis.checkCanceled c.runId env.millis with
  | (true, redis) => redis
  | (false, redis) => redis.enqueue ⟨c.runId, env.runnerKind, 1, [], [], []⟩

/-- What the next call of a create request does to the queue. -/
def queue (env : Env) (c : Create) (redis : Redis) : Redis :=
  match c.phase, env.enqueue with
  | .enqueue _, .done => c.enqueueJob env redis
  | .enqueue _, .lost => c.enqueueJob env redis
  | _, _ => redis

end Create

/-! ## Deleting, canceling, copying -/

inductive DeletePhase where
  | check
  | delete
  | done (error : Option StoreError)

/-- `deleteRunGuarded`. -/
structure Deletion where
  ctx : Ctx
  runId : String
  phase : DeletePhase := .check

/-- `DeleteRun`. -/
def removeRun (ctx : Ctx) (runId : String) (db : Db) : Except StoreError (Unit × Db) :=
  match db.getRun ctx runId with
  | some _ => .ok ((), db.deleteRun ctx runId)
  | none => .error (.notFound "run" runId)

def Deletion.next (env : Env) (d : Deletion) (db : Db) : Deletion × Db :=
  match d.phase with
  | .check =>
    match env.query (fetchRun d.ctx d.runId) db with
    | .error e => ({ d with phase := .done (some e) }, db)
    | .ok run =>
      if run.status.terminal then ({ d with phase := .delete }, db)
      else ({ d with phase := .done (some (.message "cannot delete active run; cancel it first")) }, db)
  | .delete =>
    match env.write (removeRun d.ctx d.runId) db with
    | (.ok _, db) => ({ d with phase := .done none }, db)
    | (.error e, db) => ({ d with phase := .done (some e) }, db)
  | .done _ => (d, db)

inductive CancelPhase where
  | load
  | complete
  | recheck
  | queueCancel
  | delete
  | done (error : Option StoreError)

/-- `cancelRunCore` with `cancelRunSingle`. -/
structure Cancellation where
  ctx : Ctx
  runId : String
  rollback : Bool := false
  phase : CancelPhase := .load

namespace Cancellation

def goto (c : Cancellation) (phase : CancelPhase) : Cancellation := { c with phase := phase }

/-- After `cancelRunSingle` returned without an error. -/
def finish (c : Cancellation) : Cancellation :=
  c.goto (if c.rollback then .delete else .done none)

/-- The completion of a cancellation, for the current attempt of the run it read. -/
def completion (env : Env) (c : Cancellation) (run : Run) : RunCompletion where
  cancelCurrentAttempt := true
  cancelUsage := env.cancelUsage
  runId := c.runId
  generation := metadataGeneration ((decodeMetadata run.metadata).getD []) attemptGenerationKey
  status := .interrupted

/-- `CompleteRun` of the server : the run is looked up in every tenant, and completed in
its own. -/
def complete (srv : Server) (env : Env) (c : Cancellation) (db : Db) : Cancellation × Db :=
  match db.getRun { system := true } c.runId with
  | none => (c.goto (.done (some (.notFound "run" c.runId))), db)
  | some run =>
    match completeRun srv.dialect { tenant := run.tenantId } (c.completion env run) env.now
        env.driver db with
    | (.error e, db) => (c.goto (.done (some e)), db)
    | (.ok result, db) =>
      match result.accepted, env.finalization with
      | true, some e => (c.goto (.done (some e)), db)
      | true, none => (c.goto .queueCancel, db)
      | false, _ => (c.goto .recheck, db)

def next (srv : Server) (env : Env) (c : Cancellation) (db : Db) : Cancellation × Db :=
  match c.phase with
  | .load =>
    match env.query (fetchRun c.ctx c.runId) db with
    | .error e => (c.goto (.done (some e)), db)
    | .ok run =>
      if run.status.terminal && run.status ≠ .interrupted then (c.finish, db)
      else (c.goto .complete, db)
  | .complete => c.complete srv env db
  | .recheck =>
    match env.query (fetchRun c.ctx c.runId) db with
    | .error e => (c.goto (.done (some e)), db)
    | .ok run => if run.status = .interrupted then (c.goto .queueCancel, db) else (c.finish, db)
  | .queueCancel =>
    match env.enqueue with
    | .done => (c.finish, db)
    | _ => (c.goto (.done (some (.message "failed to cancel run queue lease"))), db)
  | .delete =>
    match env.write (removeRun c.ctx c.runId) db with
    | (.ok _, db) => (c.goto (.done none), db)
    | (.error e, db) => (c.goto (.done (some e)), db)
  | .done _ => (c, db)

/-- What the next call of a cancellation does to the queue. -/
def queue (env : Env) (c : Cancellation) (redis : Redis) : Redis :=
  match c.phase, env.enqueue with
  | .queueCancel, .done => redis.cancel c.runId env.millis
  | .queueCancel, .lost => redis.cancel c.runId env.millis
  | _, _ => redis

end Cancellation

inductive CopyPhase where
  | read
  | write (t : Thread)
  | done (error : Option StoreError)

/-- `handleCopyThread`, with the fresh id of the copy. -/
structure Copy where
  ctx : Ctx
  threadId : String
  newId : String
  phase : CopyPhase := .read

/-- The copy of a thread and its decoded values : a new row with the status of the original. -/
def Copy.thread (c : Copy) (original : Thread) (values : Option (Members Number)) (now : String) :
    Thread where
  tenantId := c.ctx.tenant
  threadId := c.newId
  status := original.status
  values := (values.elim (some (.document .null)) fun vs => marshal (.object vs)).getD .empty
  version := 1
  updatedAt := now

def Copy.next (env : Env) (c : Copy) (db : Db) : Copy × Db :=
  match c.phase with
  | .read =>
    match env.query (fetchThread c.ctx c.threadId) db with
    | .error e => ({ c with phase := .done (some e) }, db)
    | .ok (original, values) => ({ c with phase := .write (c.thread original values env.now) }, db)
  | .write t =>
    match env.write (insertThread t) db with
    | (.ok _, db) => ({ c with phase := .done none }, db)
    | (.error e, db) => ({ c with phase := .done (some e) }, db)
  | .done _ => (c, db)

/-! ## The world -/

inductive Request where
  | create (c : Create)
  | delete (d : Deletion)
  | cancel (c : Cancellation)
  | copy (c : Copy)

namespace Request

def next (srv : Server) (env : Env) (db : Db) : Request → Request × Db
  | .create c => (c.next srv env db).map .create id
  | .delete d => (d.next env db).map .delete id
  | .cancel c => (c.next srv env db).map .cancel id
  | .copy c => (c.next env db).map .copy id

def queue (env : Env) (redis : Redis) : Request → Redis
  | .create c => c.queue env redis
  | .cancel c => c.queue env redis
  | _ => redis

/-- The request has been answered. -/
def answered : Request → Bool
  | .create c => match c.phase with
    | .done _ => true
    | _ => false
  | .delete d => match d.phase with
    | .done _ => true
    | _ => false
  | .cancel c => match c.phase with
    | .done _ => true
    | _ => false
  | .copy c => match c.phase with
    | .done _ => true
    | _ => false

end Request

structure World where
  db : Db := default
  redis : Redis := {}
  requests : List Request := []

inductive Event where
  | create (ctx : Ctx) (req : RunCreate) (freshThread freshRun now : String)
  | delete (ctx : Ctx) (runId : String)
  | cancel (ctx : Ctx) (runId : String) (rollback : Bool)
  | copy (ctx : Ctx) (threadId newId : String)
  /-- A request makes its next call. -/
  | proceed (i : ℕ) (env : Env)
  | beginRunAttempt (runId : String) (generation : ℤ) (env : Env)
  | completeRun (ctx : Ctx) (c : RunCompletion) (env : Env)
  /-- A step of the queue that no request in flight issues. -/
  | queue (step : QueueStep)
  /-- `PruneRuns` : terminal runs that were not touched since. -/
  | pruneRuns (ctx : Ctx) (olderThan : String)

namespace World

/-- Put a request that just arrived in flight. -/
def accept (w : World) (r : Request) : World := { w with requests := w.requests ++ [r] }

def step (srv : Server) : Event → World → World
  | .create ctx req freshThread freshRun now, w =>
    w.accept (.create (.arrive ctx req freshThread freshRun now))
  | .delete ctx runId, w => w.accept (.delete { ctx := ctx, runId := runId })
  | .cancel ctx runId rollback, w =>
    w.accept (.cancel { ctx := ctx, runId := runId, rollback := rollback })
  | .copy ctx threadId newId, w =>
    w.accept (.copy { ctx := ctx, threadId := threadId, newId := newId })
  | .proceed i env, w =>
    match w.requests[i]? with
    | none => w
    | some r =>
      { db := (r.next srv env w.db).2
        redis := r.queue env w.redis
        requests := w.requests.set i (r.next srv env w.db).1 }
  | .beginRunAttempt runId generation env, w =>
    { w with db := (Runkite.beginRunAttempt { system := true } runId generation env.now env.driver
        w.db).2 }
  | .completeRun ctx c env, w =>
    { w with db := (Runkite.completeRun srv.dialect ctx c env.now env.driver w.db).2 }
  | .queue step, w => { w with redis := step.perform w.redis }
  | .pruneRuns ctx olderThan, w =>
    { w with db := { w.db with runs := w.db.runs.delete fun r =>
        r.status.terminal && r.updatedAt < olderThan && ctx.sees r.tenantId } }

end World

end Runkite
