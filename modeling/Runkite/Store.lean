import Runkite.Json
import Runkite.Table
import Runkite.Transaction

/-!
# The state store's tables and statements

The rows of `threads`, `runs` and `thread_checkpoints`, and the single statements of the
SQLite store that other modules issue : reads scoped by the tenant of the context, the
claim and release of a thread, the unconditional status writes.

Columns that hold JSON are `Json.Text`; times are the texts the store writes.
-/

open Json (Members Number Text)

namespace Runkite

/-! ## Rows -/

inductive RunStatus where
  | pending
  | running
  | error
  | success
  | timeout
  | interrupted
deriving DecidableEq, Repr

inductive ThreadStatus where
  | idle
  | busy
  | interrupted
  | error
deriving DecidableEq, Repr

/-- `status IN ('pending','running')`. -/
def RunStatus.active : RunStatus → Bool
  | .pending | .running => true
  | _ => false

structure Thread where
  tenantId : String
  threadId : String
  status : ThreadStatus
  values : Text
  version : ℕ
  updatedAt : String

structure Run where
  tenantId : String
  runId : String
  threadId : String
  agentId : String
  status : RunStatus
  metadata : Text
  input : Text
  config : Text
  /-- `none` is NULL. -/
  output : Option Text
  errorMsg : String
  createdAt : String
  updatedAt : String
  parentRunId : Option String
  rootRunId : Option String
  depth : ℕ

structure Checkpoint where
  tenantId : String
  checkpointId : String
  threadId : String
  checkpointNs : String
  parentId : Option String
  values : Text
  metadata : Text
  nextNodes : Text
  tasks : Text
  interrupts : Text
  createdAt : String

/-- The three tables, each under its primary key. -/
structure Db where
  threads : Table Thread String Thread.threadId
  runs : Table Run String Run.runId
  checkpoints : Table Checkpoint String Checkpoint.checkpointId

instance : Inhabited Db := ⟨⟨.empty, .empty, .empty⟩⟩

/-- A thread as it is created. -/
def Thread.fresh (threadId : String) : Thread where
  tenantId := "default"
  threadId := threadId
  status := .idle
  values := .empty
  version := 1
  updatedAt := ""

/-- A run as it is inserted, without metadata or input. -/
def Run.fresh (runId threadId : String) : Run where
  tenantId := "default"
  runId := runId
  threadId := threadId
  agentId := "agent"
  status := .pending
  metadata := .empty
  input := .empty
  config := .empty
  output := none
  errorMsg := ""
  createdAt := ""
  updatedAt := ""
  parentRunId := none
  rootRunId := none
  depth := 0

/-- One thread and one run. -/
def Db.single (t : Thread) (r : Run) : Db where
  threads := ⟨[t], List.nodup_singleton _⟩
  runs := ⟨[r], List.nodup_singleton _⟩
  checkpoints := .empty

/-! ## Contexts and errors -/

/-- The tenant a request acts for; the system context sees every tenant. -/
structure Ctx where
  tenant : String := "default"
  system : Bool := false

/-- The tenant condition a statement carries unless the context is the system's. -/
def Ctx.sees (ctx : Ctx) (tenantId : String) : Bool := ctx.system || tenantId = ctx.tenant

inductive AdmissionScope where
  | tenant
  | agent
deriving DecidableEq, Repr

inductive AdmissionKind where
  | concurrent
  | daily
deriving DecidableEq, Repr

inductive StoreError where
  | notFound (resource id : String)
  | conflict (resource id reason : String)
  | admissionLimitExceeded (scope : AdmissionScope) (kind : AdmissionKind) (limit : ℤ) (current : ℕ)
  /-- A query for one row found none. -/
  | noRows
  /-- A statement the driver or a constraint refused. -/
  | statement (message : String)
  /-- A document that could not be decoded or encoded. -/
  | json
  | message (text : String)
deriving DecidableEq, Repr

/-! ## Reads -/

variable (ctx : Ctx)

/-- `SELECT … FROM runs WHERE run_id = ? [AND tenant_id = ?]`. -/
def Db.getRun (db : Db) (runId : String) : Option Run :=
  db.runs.select fun r => r.runId = runId && ctx.sees r.tenantId

/-- `SELECT … FROM threads WHERE thread_id = ? [AND tenant_id = ?]`. -/
def Db.getThread (db : Db) (threadId : String) : Option Thread :=
  db.threads.select fun t => t.threadId = threadId && ctx.sees t.tenantId

theorem Db.getRun_eq (db : Db) (runId : String) :
    db.getRun ctx runId = (db.runs.get? runId).filter fun r => ctx.sees r.tenantId :=
  db.runs.select_key_and runId _

/-! ## Writes -/

/-- `UPDATE threads SET … WHERE` the rows `p` accepts. -/
def Db.updateThreads (db : Db) (p : Thread → Bool) (f : Thread → Thread)
    (hf : ∀ t, (f t).threadId = t.threadId) : Db :=
  { db with threads := db.threads.update p f hf }

/-- `UPDATE runs SET … WHERE` the rows `p` accepts. -/
def Db.updateRuns (db : Db) (p : Run → Bool) (f : Run → Run) (hf : ∀ r, (f r).runId = r.runId) :
    Db :=
  { db with runs := db.runs.update p f hf }

@[simp] theorem Db.updateRuns_threads (db : Db) (p : Run → Bool) (f : Run → Run) (hf) :
    (db.updateRuns p f hf).threads = db.threads := rfl

theorem Db.get?_updateThreads (db : Db) (p : Thread → Bool) (f : Thread → Thread) (hf)
    (threadId : String) : (db.updateThreads p f hf).threads.get? threadId =
      (db.threads.get? threadId).map fun t => if p t then f t else t :=
  db.threads.get?_update p f hf threadId

theorem Db.get?_updateRuns (db : Db) (p : Run → Bool) (f : Run → Run) (hf) (runId : String) :
    (db.updateRuns p f hf).runs.get? runId =
      (db.runs.get? runId).map fun r => if p r then f r else r :=
  db.runs.get?_update p f hf runId

/-- Unconditional. -/
def Db.setThreadStatus (db : Db) (threadId : String) (status : ThreadStatus) (now : String) : Db :=
  db.updateThreads (fun t => t.threadId = threadId && ctx.sees t.tenantId)
    (fun t => { t with status := status, updatedAt := now }) fun _ => rfl

/-- The busy check and the busy write in one statement; whether a row
was affected. -/
def Db.tryClaimThread (db : Db) (threadId : String) (now : String) : Bool × Db :=
  let p : Thread → Bool := fun t =>
    t.threadId = threadId && t.status ≠ .busy && ctx.sees t.tenantId
  (db.threads.rows.any p,
    db.updateThreads p (fun t => { t with status := .busy, updatedAt := now }) fun _ => rfl)

/-- The subquery of `ReleaseThreadIfNoOtherActive` : some other run keeps the thread. -/
def Db.otherActive (db : Db) (threadId excludeRunId : String) : Bool :=
  db.runs.rows.any fun r => r.threadId = threadId && r.status.active && r.runId ≠ excludeRunId

/-- One conditional update. -/
def Db.releaseThreadIfNoOtherActive (db : Db) (threadId excludeRunId : String)
    (status : ThreadStatus) (now : String) : Bool × Db :=
  let p : Thread → Bool := fun t =>
    t.threadId = threadId && t.status = .busy && !db.otherActive t.threadId excludeRunId &&
      ctx.sees t.tenantId
  (db.threads.rows.any p,
    db.updateThreads p (fun t => { t with status := status, updatedAt := now }) fun _ => rfl)

/-- Unconditional. A nil output is written as the empty text. -/
def Db.updateRunStatus (db : Db) (runId : String) (status : RunStatus) (output : Option Text)
    (errorMsg : String) (now : String) : Db :=
  db.updateRuns (fun r => r.runId = runId && ctx.sees r.tenantId)
    (fun r => { r with status := status, output := some (output.getD .empty), errorMsg := errorMsg,
                       updatedAt := now }) fun _ => rfl

def Db.deleteRun (db : Db) (runId : String) : Db :=
  { db with runs := db.runs.delete fun r => r.runId = runId && ctx.sees r.tenantId }

end Runkite
