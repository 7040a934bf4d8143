import Runkite.Completion

/-!
# Creating runs

`createRunBody` is the transaction of the SQLite store that inserts a run : it locks the
thread, optionally claims it, counts against the admission ceilings and inserts the row, and
then runs what its caller wants done before the commit. `createRunAdmitted` does nothing
more; `createCachedRun` claims the thread and completes the run in the same transaction,
with the completion that `prepareCachedRun` splits off a finished result.
-/

open Json (Members Number Text marshal unmarshalMap)
open Transaction (Body Driver select exec execChecked raise transact)

namespace Runkite

/-! ## Admission ceilings -/

/-- Ceilings of a tenant and an agent; values up to zero mean unlimited. `dayStart` is the
text of the UTC midnight that the daily ceilings count from. -/
structure RunAdmissionCaps where
  tenantConcurrent : ℤ := 0
  tenantDaily : ℤ := 0
  agentConcurrent : ℤ := 0
  agentDaily : ℤ := 0
  dayStart : String := ""

/-- `SELECT COUNT(*) … status IN ('pending','running') AND tenant_id = ? [AND agent_id = ?]`;
the empty agent is every agent. -/
def countActive (tenantId agentId : String) : Body Db StoreError ℕ :=
  select fun db => .ok (db.runs.count fun r =>
    r.status.active && r.tenantId = tenantId && (agentId = "" || r.agentId = agentId))

/-- `metadata.simulation` is true; `none` where the column is not JSON and the extraction
raises an error. -/
def Run.simulation (r : Run) : Option Bool :=
  match r.metadata with
  | .document (.object ms) =>
    match ms.lookup "simulation" with
    | some (.bool b) => some b
    | some (.number n) => some (n.toRat = 1)
    | some (.string s) => some (s = "true")
    | _ => some false
  | .document _ => some false
  | _ => none

/-- `SELECT COUNT(*) … created_at >= ? AND tenant_id = ?` without simulations
`[AND agent_id = ?]`. -/
def countSince (since tenantId agentId : String) : Body Db StoreError ℕ :=
  select fun db =>
    let counted := db.runs.rows.filter fun r => since ≤ r.createdAt && r.tenantId = tenantId
    if counted.any fun r => r.simulation = none then .error (.statement "malformed JSON")
    else .ok (counted.countP fun r =>
      r.simulation = some false && (agentId = "" || r.agentId = agentId))

/-- One ceiling of `EvaluateRunAdmission`. -/
def checkCeiling (scope : AdmissionScope) (kind : AdmissionKind) (limit : ℤ)
    (count : Body Db StoreError ℕ) : Body Db StoreError Unit :=
  if limit ≤ 0 then pure ()
  else do
    let n ← count
    if limit ≤ n then raise (.admissionLimitExceeded scope kind limit n) else pure ()

def evaluateRunAdmission (caps : Option RunAdmissionCaps) (tenantId agentId : String) :
    Body Db StoreError Unit :=
  match caps with
  | none => pure ()
  | some caps => do
    checkCeiling .tenant .concurrent caps.tenantConcurrent (countActive tenantId "")
    checkCeiling .agent .concurrent caps.agentConcurrent (countActive tenantId agentId)
    checkCeiling .tenant .daily caps.tenantDaily (countSince caps.dayStart tenantId "")
    checkCeiling .agent .daily caps.agentDaily (countSince caps.dayStart tenantId agentId)

/-! ## Insertion -/

/-- A run as the API hands it to the store. A nil metadata map is `none`. -/
structure NewRun where
  runId : String
  threadId : String
  agentId : String
  status : RunStatus := .pending
  metadata : Option (Members Number) := none
  input : Text := .empty
  config : Text := .empty
  output : Text := .empty
  createdAt : String := ""
  updatedAt : String := ""
  parentRunId : Option String := none
  rootRunId : Option String := none
  depth : ℕ := 0

/-- The metadata column of an inserted row; the marshal error is dropped. -/
def NewRun.metadataText (run : NewRun) : Text :=
  match run.metadata with
  | none => .document .null
  | some metadata => (marshal (.object metadata)).getD .empty

def NewRun.row (run : NewRun) (tenantId : String) : Run where
  tenantId := tenantId
  runId := run.runId
  threadId := run.threadId
  agentId := run.agentId
  status := run.status
  metadata := run.metadataText
  input := run.input
  config := run.config
  output := none
  errorMsg := ""
  createdAt := run.createdAt
  updatedAt := run.updatedAt
  parentRunId := run.parentRunId
  rootRunId := run.rootRunId
  depth := run.depth

def lockThread (ctx : Ctx) (threadId : String) : Body Db StoreError ThreadStatus :=
  select fun db =>
    match db.threads.select (ownThread threadId ctx.tenant) with
    | some t => .ok t.status
    | none => .error (.notFound "thread" threadId)

/-- `UPDATE threads SET status = 'busy' WHERE thread_id = ? AND tenant_id = ?`, when the
caller claims the thread. -/
def claimThread (ctx : Ctx) (threadId : String) (claim : Bool) : Body Db StoreError Unit :=
  if claim then
    exec fun db => db.updateThreads (ownThread threadId ctx.tenant)
      (fun t => { t with status := .busy }) fun _ => rfl
  else pure ()

/-- `INSERT INTO runs`. -/
def insertRun (ctx : Ctx) (run : NewRun) : Body Db StoreError Unit :=
  execChecked fun db =>
    match db.runs.insert (run.row ctx.tenant) with
    | some runs => .ok { db with runs := runs }
    | none => .error (.conflict "run" run.runId "")

/-- `createRun`, up to its commit. -/
def createRunBody (ctx : Ctx) (run : NewRun) (caps : Option RunAdmissionCaps) (claim : Bool)
    (afterInsert : Body Db StoreError Unit) : Body Db StoreError Unit := do
  let status ← lockThread ctx run.threadId
  if claim && status = .busy then
    raise (.conflict "thread" run.threadId "is busy")
  else do
    claimThread ctx run.threadId claim
    evaluateRunAdmission caps ctx.tenant run.agentId
    insertRun ctx run
    afterInsert

def createRunAdmitted (ctx : Ctx) (run : NewRun) (caps : Option RunAdmissionCaps)
    (driver : Driver StoreError) (db : Db) : Except StoreError Unit × Db :=
  transact (createRunBody ctx run caps false (pure ())) (fun _ => true) driver db

/-! ## Cached runs -/

def prepareCachedRun (run : NewRun) : Except StoreError (NewRun × RunCompletion) :=
  if run.status ≠ .success then
    .error (.message "cached creation requires a successful result")
  else
    match unmarshalMap Json.decodeNumber run.output with
    | none => .error (.message "decode cached result")
    | some none => .error (.message "cached result must be a JSON object")
    | some (some values) =>
      .ok ({ run with
          status := .pending
          output := .empty
          metadata := some (Members.erase completionGenerationKey
            (Members.erase attemptGenerationKey (run.metadata.getD []))) },
        { runId := run.runId, generation := 0, status := .success, values := some values })

/-- What `CreateCachedRun` does after the insertion. -/
def completeCached (d : Dialect) (ctx : Ctx) (c : RunCompletion) (now : String) :
    Body Db StoreError Unit := do
  let result ← completeRunInTx d ctx c now
  if result.applied then pure () else raise (.message "cache completion was not applied")

/-- The transaction of `CreateCachedRun`, for a prepared run and its completion. -/
def createCachedRunBody (d : Dialect) (ctx : Ctx) (pending : NewRun) (c : RunCompletion)
    (caps : Option RunAdmissionCaps) (now : String) : Body Db StoreError Unit :=
  createRunBody ctx pending caps true (completeCached d ctx c now)

def createCachedRun (d : Dialect) (ctx : Ctx) (run : NewRun) (caps : Option RunAdmissionCaps)
    (now : String) (driver : Driver StoreError) (db : Db) : Except StoreError Unit × Db :=
  match prepareCachedRun run with
  | .error e => (.error e, db)
  | .ok (pending, c) =>
    transact (createCachedRunBody d ctx pending c caps now) (fun _ => true) driver db

/-! ## What a successful creation did -/

section Bodies

variable {ctx : Ctx} {run : NewRun} {caps : Option RunAdmissionCaps} {claim : Bool} {db db' : Db}
  {runs : Table Run String Run.runId} {u : Unit}

/-- A ceiling that is passed is above the count. -/
theorem run_checkCeiling_ok {scope : AdmissionScope} {kind : AdmissionKind} {limit : ℤ}
    {count : Db → Except StoreError ℕ}
    (h : (checkCeiling scope kind limit (Transaction.select count)).run [] db = .ok (u, db')) :
    db = db' ∧ (0 < limit → ∃ n, count db = .ok n ∧ (n : ℤ) < limit) := by
  unfold checkCeiling at h
  split_ifs at h with hlimit
  · exact ⟨(Body.run_pure_ok.1 h).2, fun hpos => absurd hpos (by omega)⟩
  obtain ⟨n, s, hn, h⟩ := Body.run_bind_ok.1 h
  obtain ⟨hcount, rfl⟩ := Body.run_select_ok.1 hn
  split_ifs at h with hfull
  · exact absurd h Body.run_raise_ok
  · exact ⟨(Body.run_pure_ok.1 h).2, fun _ => ⟨n, hcount, by omega⟩⟩

theorem eq_of_run_evaluateRunAdmission {tenantId agentId : String}
    (h : (evaluateRunAdmission caps tenantId agentId).run [] db = .ok (u, db')) : db = db' := by
  rcases caps with _ | caps
  · exact (Body.run_pure_ok.1 h).2
  simp only [evaluateRunAdmission, Body.run_bind_ok] at h
  obtain ⟨_, _, h₁, _, _, h₂, _, _, h₃, h₄⟩ := h
  obtain ⟨rfl, -⟩ := run_checkCeiling_ok h₁
  obtain ⟨rfl, -⟩ := run_checkCeiling_ok h₂
  obtain ⟨rfl, -⟩ := run_checkCeiling_ok h₃
  exact (run_checkCeiling_ok h₄).1

/-- The state in which the callers of `createRun` continue after the insertion. -/
def Db.created (db : Db) (ctx : Ctx) (run : NewRun) (claim : Bool)
    (runs : Table Run String Run.runId) : Db :=
  { (if claim then db.updateThreads (ownThread run.threadId ctx.tenant)
      (fun t => { t with status := .busy }) (fun _ => rfl) else db) with runs := runs }

/-- Everything a fault-free creation that returns can have done. -/
theorem run_createRunBody_ok {afterInsert : Body Db StoreError Unit}
    (h : (createRunBody ctx run caps claim afterInsert).run [] db = .ok (u, db')) :
    ∃ t runs mid, db.threads.select (ownThread run.threadId ctx.tenant) = some t ∧
      ¬ (claim ∧ t.status = .busy) ∧ mid.runs = db.runs ∧
      (evaluateRunAdmission caps ctx.tenant run.agentId).run [] mid = .ok ((), mid) ∧
      db.runs.insert (run.row ctx.tenant) = some runs ∧
      afterInsert.run [] (db.created ctx run claim runs) = .ok (u, db') := by
  simp only [createRunBody, lockThread, Body.run_bind_ok, Body.run_select_ok] at h
  obtain ⟨status, _, ⟨hlock, rfl⟩, h⟩ := h
  rcases hsel : db.threads.select (ownThread run.threadId ctx.tenant) with _ | t
  · simp [hsel] at hlock
  rw [hsel] at hlock
  cases hlock
  split_ifs at h with hbusy
  · exact absurd h Body.run_raise_ok
  simp only [Body.run_bind_ok, insertRun, Body.run_execChecked_ok] at h
  obtain ⟨_, mid, hclaim, _, _, hadm, _, _, hins, h⟩ := h
  obtain rfl := eq_of_run_evaluateRunAdmission hadm
  have hmid : mid = if claim then db.updateThreads (ownThread run.threadId ctx.tenant)
      (fun t => { t with status := .busy }) (fun _ => rfl) else db := by
    unfold claimThread at hclaim
    split_ifs at hclaim ⊢
    · exact (Body.run_exec_ok.1 hclaim).symm
    · exact (Body.run_pure_ok.1 hclaim).2.symm
  have hruns : mid.runs = db.runs := by
    rw [hmid]
    split_ifs <;> rfl
  rcases hrow : db.runs.insert (run.row ctx.tenant) with _ | runs
  · simp [hruns, hrow] at hins
  refine ⟨t, runs, mid, rfl, by simpa using hbusy, hruns, hadm, rfl, ?_⟩
  simp only [hruns, hrow, Except.ok.injEq] at hins
  rw [Db.created, ← hmid, hins]
  exact h

/-- The inserted row, where the callers of `createRun` continue. -/
theorem get?_created (h : db.runs.insert (run.row ctx.tenant) = some runs) :
    (db.created ctx run claim runs).runs.get? run.runId = some (run.row ctx.tenant) := by
  have := Table.get?_of_insert h (run.row ctx.tenant).runId
  rwa [if_pos rfl] at this

theorem get?_created_of_ne {runId : String}
    (h : db.runs.insert (run.row ctx.tenant) = some runs) (hne : runId ≠ run.runId) :
    (db.created ctx run claim runs).runs.get? runId = db.runs.get? runId := by
  have := Table.get?_of_insert h runId
  rwa [show Run.runId (run.row ctx.tenant) = run.runId from rfl, if_neg hne] at this

section

variable {pending : NewRun} {c : RunCompletion} (h : prepareCachedRun run = .ok (pending, c))
include h

theorem prepareCachedRun_ok :
    pending.runId = run.runId ∧ pending.threadId = run.threadId ∧ c.runId = run.runId ∧
      c.generation = 0 ∧ c.status = .success ∧ c.cancelCurrentAttempt = false ∧
      ∃ values, c.values = some values ∧
        unmarshalMap Json.decodeNumber run.output = some (some values) := by
  unfold prepareCachedRun at h
  split_ifs at h
  split at h
  · simp at h
  · simp at h
  · rename_i values hval
    simp only [Except.ok.injEq, Prod.mk.injEq] at h
    obtain ⟨rfl, rfl⟩ := h
    exact ⟨rfl, rfl, rfl, rfl, rfl, rfl, values, rfl, hval⟩

theorem prepareCachedRun_keeps : pending.agentId = run.agentId ∧ pending.input = run.input ∧
      pending.metadata = some (Members.erase completionGenerationKey
        (Members.erase attemptGenerationKey (run.metadata.getD []))) := by
  unfold prepareCachedRun at h
  split_ifs at h
  split at h
  · simp at h
  · simp at h
  · simp only [Except.ok.injEq, Prod.mk.injEq] at h
    obtain ⟨rfl, -⟩ := h
    exact ⟨rfl, rfl, rfl⟩

end

theorem run_completeCached_ok {d : Dialect} {c : RunCompletion} {now : String}
    (h : (completeCached d ctx c now).run [] db = .ok (u, db')) :
    ∃ r l, db.runs.get? c.runId = some r ∧ r.loaded = .ok l ∧
      Completed l (resolveCompletion l.metadata c) now db db' := by
  obtain ⟨_, _, hrun, h⟩ := Body.run_bind_ok.1 h
  split_ifs at h with happ
  swap
  · exact absurd h Body.run_raise_ok
  obtain ⟨-, rfl⟩ := Body.run_pure_ok.1 h
  obtain ⟨r, l, hr, hl, -, hdone⟩ := run_completeRunInTx_ok hrun
  rcases hdone with ⟨hno, -⟩ | ⟨-, hcomp⟩
  · simp [hno] at happ
  · exact ⟨r, l, get?_of_getRun hr, hl, hcomp⟩

end Bodies

/-! ## The transactions as a whole -/

variable (ctx : Ctx) (run : NewRun) (caps : Option RunAdmissionCaps) (driver : Driver StoreError)
  (db : Db)

theorem createRunAdmitted_cases : (∃ e, createRunAdmitted ctx run caps driver db = (.error e, db)) ∨
    ∃ t runs, db.threads.select (ownThread run.threadId ctx.tenant) = some t ∧
      db.runs.insert (run.row ctx.tenant) = some runs ∧
      (createRunAdmitted ctx run caps driver db = (.ok (), { db with runs := runs }) ∨
        ∃ e, driver.commit = .unacknowledged e ∧
          createRunAdmitted ctx run caps driver db = (.error e, { db with runs := runs })) := by
  unfold createRunAdmitted
  rcases Transaction.transact_cases (createRunBody ctx run caps false (pure ())) (fun _ => true)
    driver db with ⟨-, he⟩ | ⟨-, a, s', -, hk, -⟩ | ⟨-, a, s', hrun, -, hres⟩
  · exact .inl he
  · simp at hk
  · obtain ⟨t, runs, _, ht, -, -, -, hins, h⟩ := run_createRunBody_ok hrun
    obtain ⟨-, rfl⟩ := Body.run_pure_ok.1 h
    exact .inr ⟨t, runs, ht, hins, hres⟩

/-- `CreateCachedRun` fails and changes nothing, or claims a thread that is not busy, inserts
the prepared row and completes it. -/
theorem createCachedRun_cases (d : Dialect) (now : String) :
    (∃ e, createCachedRun d ctx run caps now driver db = (.error e, db)) ∨
    ∃ pending c t runs l, prepareCachedRun run = .ok (pending, c) ∧
      db.threads.select (ownThread run.threadId ctx.tenant) = some t ∧ t.status ≠ .busy ∧
      db.runs.insert (pending.row ctx.tenant) = some runs ∧
      (pending.row ctx.tenant).loaded = .ok l ∧
      Completed l (resolveCompletion l.metadata c) now (db.created ctx pending true runs)
        (createCachedRun d ctx run caps now driver db).2 := by
  unfold createCachedRun
  rcases hprep : prepareCachedRun run with e | ⟨pending, c⟩
  · exact .inl ⟨e, rfl⟩
  obtain ⟨hrunId, hthreadId, hcrun, -⟩ := prepareCachedRun_ok hprep
  rcases Transaction.transact_cases (createCachedRunBody d ctx pending c caps now) (fun _ => true)
    driver db with ⟨-, he⟩ | ⟨-, a, s', -, hk, -⟩ | ⟨-, a, s', hrun, -, hres⟩
  · exact .inl he
  · simp at hk
  · obtain ⟨t, runs, _, ht, hbusy, -, -, hins, h⟩ := run_createRunBody_ok hrun
    obtain ⟨r, l, hr, hl, hcomp⟩ := run_completeCached_ok h
    obtain rfl : r = pending.row ctx.tenant := by
      rw [hcrun, ← hrunId, get?_created hins] at hr
      exact (Option.some.inj hr).symm
    refine .inr ⟨pending, c, t, runs, l, rfl, hthreadId ▸ ht, fun hb => hbusy ⟨rfl, hb⟩, hins, hl,
      ?_⟩
    obtain heq | ⟨e, -, heq⟩ := hres <;> simpa [heq] using hcomp

end Runkite
