import Runkite.Store

/-!
# Attempts and completions of a run

A run's attempt generation and, once it is completed, the generation of the completion
are kept under two reserved keys of its metadata document. `checkCompletion` is the fence a
completion has to pass, `resolveCompletion` binds a trusted cancellation to the current
attempt, and `beginRunAttempt` and `completeRun` are the two transactions of the store that
use them.

The metadata column is read with the plain JSON decoder, so a generation that was written
as an integer is read back as a binary64 number.
-/

open Json (Members Number Text Value marshal unmarshalMap)
open Transaction (Body Driver select exec execChecked raise transact)

namespace Runkite

/-! ## Generations in metadata -/

def attemptGenerationKey : String := "_runkite_attempt_generation"

def completionGenerationKey : String := "_runkite_completion_generation"

/-- Clamp to the range of `int64`, as the integer parser does beside its range error. -/
def clampInt64 (n : ℤ) : ℤ := max (-2 ^ 63) (min n (2 ^ 63 - 1))

/-- `int64(x)` of a float : truncation towards zero. The language leaves values out of
range to the machine; this is what amd64 does. -/
def int64OfFloat (x : ℚ) : ℤ :=
  let n := if 0 ≤ x then ⌊x⌋ else ⌈x⌉
  if -2 ^ 63 ≤ n ∧ n < 2 ^ 63 then n else -2 ^ 63

/-- The digits of a decimal natural number, `none` at any other character. -/
def parseDigits : List Char → Option ℕ
  | [] => none
  | cs => cs.foldl (fun acc c =>
      acc.bind fun n => if c.isDigit then some (10 * n + (c.toNat - '0'.toNat)) else none) (some 0)

/-- `strconv.ParseInt(s, 10, 64)` with its error dropped : zero on a syntax error. -/
def parseInt64 (s : String) : ℤ :=
  match s.toList with
  | '-' :: ds => (parseDigits ds).elim 0 fun n => clampInt64 (-n)
  | '+' :: ds => (parseDigits ds).elim 0 fun n => clampInt64 n
  | ds => (parseDigits ds).elim 0 fun n => clampInt64 n

def metadataGeneration (metadata : Members Number) (key : String) : ℤ :=
  match metadata.lookup key with
  | some (.number (.int n)) => n
  | some (.number (.float64 x)) => int64OfFloat x
  | some (.number (.literal d)) => if d.exponent = 0 then clampInt64 d.coefficient else 0
  | some (.string s) => parseInt64 s
  | _ => 0

/-! ## The completion fence -/

structure RunCompletion where
  cancelCurrentAttempt : Bool := false
  cancelUsage : Option (Members Number) := none
  runId : String
  generation : ℤ
  status : RunStatus
  error : String := ""
  values : Option (Members Number) := none

structure CompletionResult where
  accepted : Bool
  applied : Bool
deriving DecidableEq, Repr

/-- `TerminalRunStatus`. -/
def RunStatus.terminal : RunStatus → Bool
  | .success | .error | .interrupted | .timeout => true
  | _ => false

def checkCompletion (metadata : Members Number) (status : RunStatus) (c : RunCompletion) :
    CompletionResult :=
  if !c.status.terminal then ⟨false, false⟩
  else if c.generation ≠ metadataGeneration metadata attemptGenerationKey then ⟨false, false⟩
  else if (metadata.lookup completionGenerationKey).isSome then
    ⟨metadataGeneration metadata completionGenerationKey = c.generation && status = c.status, false⟩
  else if status.terminal then ⟨false, false⟩
  else ⟨true, true⟩

def resolveCompletion (metadata : Members Number) (c : RunCompletion) : RunCompletion :=
  if !c.cancelCurrentAttempt || (c.status ≠ .interrupted && c.status ≠ .timeout) then c
  else
    let generation := metadataGeneration metadata attemptGenerationKey
    { c with
      generation := generation
      values :=
        match c.cancelUsage with
        | some usage => if c.generation = generation then some [("usage", .object usage)] else none
        | none => none }

/-- The completion is bound to the attempt that is current when it is checked. -/
def RunCompletion.takesCurrent (c : RunCompletion) : Bool :=
  c.cancelCurrentAttempt && (c.status = .interrupted || c.status = .timeout)

/-! ## The transactions -/

/-- What the drivers of different backends supply : an optional check of every document
that is about to be stored. -/
structure Dialect where
  validateValues : Option (Text → Except StoreError Unit) := none

/-- The metadata map `load` hands on : an empty column and a `null` document are the
empty map. -/
def decodeMetadata : Text → Option (Members Number)
  | .empty => some []
  | t => (unmarshalMap Json.decodeFloat t).map fun m => m.getD []

/-- The row of a run with its metadata decoded. -/
structure Loaded where
  tenantId : String
  threadId : String
  status : RunStatus
  metadata : Members Number

/-- The scan and decoding of `load`. -/
def Run.loaded (r : Run) : Except StoreError Loaded :=
  match decodeMetadata r.metadata with
  | some metadata => .ok ⟨r.tenantId, r.threadId, r.status, metadata⟩
  | none => .error .json

def load (ctx : Ctx) (runId : String) : Body Db StoreError Loaded :=
  select fun db =>
    match db.getRun ctx runId with
    | some r => r.loaded
    | none => .error .noRows

def orRaise {α : Type} (e : StoreError) : Option α → Body Db StoreError α
  | some a => pure a
  | none => raise e

/-- The rows `WHERE run_id = ? AND tenant_id = ?` of a statement of these transactions. -/
def ownRun (runId tenantId : String) (r : Run) : Bool := r.runId = runId && r.tenantId = tenantId

/-- The rows `WHERE thread_id = ? AND tenant_id = ?`. -/
def ownThread (threadId tenantId : String) (t : Thread) : Bool :=
  t.threadId = threadId && t.tenantId = tenantId

def beginRunAttemptBody (ctx : Ctx) (runId : String) (generation : ℤ) (now : String) :
    Body Db StoreError Bool := do
  let l ← load ctx runId
  if l.status.terminal || generation < metadataGeneration l.metadata attemptGenerationKey then
    return false
  let raw ← orRaise .json
    (marshal (.object (Members.insert attemptGenerationKey (.number (.int generation)) l.metadata)))
  exec fun db => db.updateRuns (ownRun runId l.tenantId)
    (fun r => { r with metadata := raw, status := .running, updatedAt := now }) fun _ => rfl
  return true

def beginRunAttempt (ctx : Ctx) (runId : String) (generation : ℤ) (now : String)
    (driver : Driver StoreError) (db : Db) : Except StoreError Bool × Db :=
  transact (beginRunAttemptBody ctx runId generation now) id driver db

/-- `if d.ValidateValues != nil { … }`. -/
def validate (d : Dialect) (raw : Text) : Body Db StoreError Unit :=
  match d.validateValues with
  | some check => select fun _ => check raw
  | none => pure ()

/-- The map `jsonvalue.Unmarshal` leaves of the thread's values, numbers kept as literals. -/
def decodeValues : Text → Option (Members Number)
  | .empty => some []
  | t => (unmarshalMap Json.decodeNumber t).map fun m => m.getD []

/-- `ORDER BY created_at DESC LIMIT 1` over the checkpoints of a thread. -/
def Db.latestCheckpoint (db : Db) (threadId tenantId : String) : Option Checkpoint :=
  (db.checkpoints.rows.filter fun c => c.threadId = threadId && c.tenantId = tenantId).foldl
    (fun best c =>
      match best with
      | none => some c
      | some b => if b.createdAt < c.createdAt then some c else some b) none

def emptyObject : Text := .document (.object [])

def emptyArray : Text := .document (.array [])

def completionCheckpoint (l : Loaded) (runId : String) (parent : Option Checkpoint)
    (threadRaw : Text) (now : String) : Checkpoint where
  tenantId := l.tenantId
  checkpointId := "completion:" ++ runId
  threadId := l.threadId
  checkpointNs := ""
  parentId := parent.map Checkpoint.checkpointId
  values := threadRaw
  metadata := emptyObject
  nextNodes := emptyArray
  tasks := emptyArray
  interrupts := emptyArray
  createdAt := now

/-- The values of a result, merged into the thread, and the checkpoint of the merge. -/
def mergeThreadValues (d : Dialect) (l : Loaded) (runId : String) (values : Members Number)
    (now : String) : Body Db StoreError Unit := do
  let old ← select fun db =>
    match db.threads.select (ownThread l.threadId l.tenantId) with
    | some t => .ok t.values
    | none => .error .noRows
  let old ← orRaise .json (decodeValues old)
  let threadRaw ← orRaise .json (marshal (.object (Members.override old values)))
  validate d threadRaw
  exec fun db => db.updateThreads (ownThread l.threadId l.tenantId)
    (fun t => { t with values := threadRaw, version := t.version + 1, updatedAt := now })
    fun _ => rfl
  let parent ← select fun db => .ok (db.latestCheckpoint l.threadId l.tenantId)
  execChecked fun db =>
    match db.checkpoints.insert (completionCheckpoint l runId parent threadRaw now) with
    | some checkpoints => .ok { db with checkpoints := checkpoints }
    | none => .error (.statement "UNIQUE constraint failed: thread_checkpoints.checkpoint_id")

/-- The status a completed run leaves its thread in. -/
def RunStatus.threadStatus : RunStatus → ThreadStatus
  | .interrupted => .interrupted
  | _ => .idle

/-- The release at the end of a completion, under the lock of the thread row. -/
def releaseThread (l : Loaded) (runId : String) (status : RunStatus) (now : String) :
    Body Db StoreError Unit := do
  let _ ← select fun db =>
    match db.threads.select (ownThread l.threadId l.tenantId) with
    | some t => .ok t.status
    | none => .error .noRows
  let active ← select fun db => .ok (db.runs.count fun r =>
    r.threadId = l.threadId && r.tenantId = l.tenantId && r.status.active && r.runId ≠ runId)
  if active = 0 then
    exec fun db => db.updateThreads
      (fun t => ownThread l.threadId l.tenantId t && t.status = .busy)
      (fun t => { t with status := status.threadStatus, updatedAt := now }) fun _ => rfl

/-- The run's own result as it goes to the `output` column, NULL without one. -/
def encodeOutput (d : Dialect) : Option (Members Number) → Body Db StoreError (Option Text)
  | some values => do
    let raw ← orRaise .json (marshal (.object values))
    validate d raw
    return some raw
  | none => return none

/-- The part of a completion that concerns the thread's values. Cancellation usage belongs
to the run, not to conversation history. -/
def mergeResult (d : Dialect) (l : Loaded) (c : RunCompletion) (now : String) :
    Body Db StoreError Unit :=
  match c.values, c.cancelCurrentAttempt with
  | some values, false => mergeThreadValues d l c.runId values now
  | _, _ => pure ()

def completeRunInTx (d : Dialect) (ctx : Ctx) (c : RunCompletion) (now : String) :
    Body Db StoreError CompletionResult := do
  let l ← load ctx c.runId
  let c := resolveCompletion l.metadata c
  let result := checkCompletion l.metadata l.status c
  if !result.applied then return result
  let rawMeta ← orRaise .json (marshal (.object
    (Members.insert completionGenerationKey (.number (.int c.generation)) l.metadata)))
  let output ← encodeOutput d c.values
  mergeResult d l c now
  exec fun db => db.updateRuns (ownRun c.runId l.tenantId)
    (fun r => { r with metadata := rawMeta, status := c.status, output := output,
                       errorMsg := c.error, updatedAt := now }) fun _ => rfl
  releaseThread l c.runId c.status now
  return result

/-- Only an applied completion is committed. -/
def completeRun (d : Dialect) (ctx : Ctx) (c : RunCompletion) (now : String)
    (driver : Driver StoreError) (db : Db) : Except StoreError CompletionResult × Db :=
  transact (completeRunInTx d ctx c now) CompletionResult.applied driver db

/-! ## What a successful body did -/

variable {raw : Text}

section Bodies

variable {d : Dialect} {ctx : Ctx} {l : Loaded} {runId now : String} {db db' : Db}

@[simp] theorem run_orRaise_ok {α : Type} {e : StoreError} {o : Option α} {a : α} :
    (orRaise e o).run [] db = .ok (a, db') ↔ o = some a ∧ db = db' := by
  rcases o with _ | b <;> simp [orRaise]

@[simp] theorem run_load_ok : (load ctx runId).run [] db = .ok (l, db') ↔
      ∃ r, db.getRun ctx runId = some r ∧ r.loaded = .ok l ∧ db = db' := by
  unfold load
  rw [Body.run_select_ok]
  cases db.getRun ctx runId <;> simp

variable {u : Unit} {c : RunCompletion}

theorem eq_of_run_validate (h : (validate d raw).run [] db = .ok (u, db')) : db = db' := by
  unfold validate at h
  split at h
  · exact (Body.run_select_ok.1 h).2
  · exact (Body.run_pure_ok.1 h).2

/-- The effect of `mergeThreadValues` where a completion calls it, and none elsewhere. -/
def Merged (l : Loaded) (c : RunCompletion) (now : String) (db mid : Db) : Prop :=
  match c.values, c.cancelCurrentAttempt with
  | some values, false =>
    ∃ t old raw parent checkpoints,
      db.threads.select (ownThread l.threadId l.tenantId) = some t ∧
      decodeValues t.values = some old ∧
      marshal (.object (Members.override old values)) = some raw ∧
      db.checkpoints.insert (completionCheckpoint l c.runId parent raw now) = some checkpoints ∧
      mid = { db.updateThreads (ownThread l.threadId l.tenantId)
        (fun t => { t with values := raw, version := t.version + 1, updatedAt := now })
        (fun _ => rfl) with checkpoints := checkpoints }
  | _, _ => mid = db

/-- The run row a completion writes. -/
def Db.completeRow (db : Db) (l : Loaded) (c : RunCompletion) (rawMeta : Text)
    (output : Option Text) (now : String) : Db :=
  db.updateRuns (ownRun c.runId l.tenantId)
    (fun r => { r with metadata := rawMeta, status := c.status, output := output,
                       errorMsg := c.error, updatedAt := now }) fun _ => rfl

/-- The release of the thread, when no other run keeps it. -/
def Db.releaseCompleted (db : Db) (l : Loaded) (c : RunCompletion) (now : String) : Db :=
  if (db.runs.count fun r => r.threadId = l.threadId && r.tenantId = l.tenantId &&
      r.status.active && r.runId ≠ c.runId) = 0 then
    db.updateThreads (fun t => ownThread l.threadId l.tenantId t && t.status = .busy)
      (fun t => { t with status := c.status.threadStatus, updatedAt := now }) fun _ => rfl
  else db

/-- An applied completion, resolved to `c`, of the run loaded as `l`. -/
def Completed (l : Loaded) (c : RunCompletion) (now : String) (db db' : Db) : Prop :=
  ∃ rawMeta output mid,
    marshal (.object (Members.insert completionGenerationKey (.number (.int c.generation))
      l.metadata)) = some rawMeta ∧
    (c.values.map fun values => marshal (.object values)) = output.map some ∧
    Merged l c now db mid ∧
    (∃ t, mid.threads.select (ownThread l.threadId l.tenantId) = some t) ∧
    db' = (mid.completeRow l c rawMeta output now).releaseCompleted l c now

/-- What a successful merge did to the thread and its checkpoints. -/
theorem run_mergeThreadValues_ok {values : Members Number} (hvalues : c.values = some values)
    (hmerges : c.cancelCurrentAttempt = false)
    (h : (mergeThreadValues d l c.runId values now).run [] db = .ok (u, db')) :
    Merged l c now db db' := by
  simp only [Merged, hvalues, hmerges]
  simp only [mergeThreadValues, Body.run_bind_ok, Body.run_select_ok, run_orRaise_ok,
    Body.run_exec_ok, Body.run_execChecked_ok] at h
  obtain ⟨_, _, ⟨hold, rfl⟩, old, _, ⟨hdec, rfl⟩, raw, _, ⟨hraw, rfl⟩, _, _, hval, _, _, rfl,
    parent, _, ⟨-, rfl⟩, hins⟩ := h
  obtain rfl := eq_of_run_validate hval
  rcases hsel : db.threads.select (ownThread l.threadId l.tenantId) with _ | t
  · simp [hsel] at hold
  rcases hck : db.checkpoints.insert (completionCheckpoint l c.runId parent raw now) with _ | cks
  · simp [Db.updateThreads, hck] at hins
  rw [hsel] at hold
  cases hold
  refine ⟨t, old, raw, parent, cks, rfl, hdec, hraw, hck, ?_⟩
  simp only [Db.updateThreads, hck] at hins
  exact (Except.ok.inj hins).symm

/-- What a successful release did to the threads. -/
theorem run_releaseThread_ok (h : (releaseThread l c.runId c.status now).run [] db = .ok (u, db')) :
    (∃ t, db.threads.select (ownThread l.threadId l.tenantId) = some t) ∧
    db' = db.releaseCompleted l c now := by
  simp only [releaseThread, Body.run_bind_ok, Body.run_select_ok] at h
  obtain ⟨_, _, ⟨hst, rfl⟩, _, _, ⟨hact, rfl⟩, h⟩ := h
  refine ⟨?_, ?_⟩
  · rcases hsel : db.threads.select (ownThread l.threadId l.tenantId) with _ | t
    · simp [hsel] at hst
    · exact ⟨t, rfl⟩
  · cases hact
    unfold Db.releaseCompleted
    split_ifs at h ⊢
    · exact (Body.run_exec_ok.1 h).symm
    · exact (Body.run_pure_ok.1 h).2.symm

theorem run_encodeOutput_ok {values : Option (Members Number)} {output : Option Text}
    (h : (encodeOutput d values).run [] db = .ok (output, db')) :
    (values.map fun values => marshal (.object values)) = output.map some ∧ db = db' := by
  rcases values with _ | values
  · simp only [encodeOutput, Body.run_pure_ok] at h
    exact ⟨by simp [← h.1], h.2⟩
  · simp only [encodeOutput, Body.run_bind_ok, run_orRaise_ok, Body.run_pure_ok] at h
    obtain ⟨_, _, ⟨hraw, rfl⟩, _, _, hval, rfl, rfl⟩ := h
    exact ⟨by simp [hraw], eq_of_run_validate hval⟩

theorem run_mergeResult_ok
    (h : (mergeResult d l c now).run [] db = .ok (u, db')) : Merged l c now db db' := by
  unfold mergeResult at h
  split at h
  · rename_i values hvalues hmerges
    exact run_mergeThreadValues_ok hvalues hmerges h
  · rename_i hne
    unfold Merged
    split
    · rename_i values hvalues hmerges
      exact absurd hmerges (hne values hvalues)
    · exact (Body.run_pure_ok.1 h).2.symm

/-- Everything a fault-free run of `CompleteRunInTx` that returns can have done. -/
theorem run_completeRunInTx_ok {result : CompletionResult}
    (h : (completeRunInTx d ctx c now).run [] db = .ok (result, db')) :
    ∃ r l, db.getRun ctx c.runId = some r ∧ r.loaded = .ok l ∧
      result = checkCompletion l.metadata l.status (resolveCompletion l.metadata c) ∧
      (result.applied = false ∧ db' = db ∨
        result.applied ∧ Completed l (resolveCompletion l.metadata c) now db db') := by
  simp only [completeRunInTx, Body.run_bind_ok, run_load_ok] at h
  obtain ⟨l, _, ⟨r, hr, hl, rfl⟩, h⟩ := h
  refine ⟨r, l, hr, hl, ?_⟩
  rcases happ : (checkCompletion l.metadata l.status (resolveCompletion l.metadata c)).applied
    with _ | _
  · simp only [happ, Bool.not_false, if_true, Body.run_pure_ok] at h
    exact ⟨h.1.symm, .inl ⟨h.1 ▸ happ, h.2.symm⟩⟩
  simp only [happ, Bool.not_true, Bool.false_eq_true, if_false, Body.run_bind_ok, run_orRaise_ok,
    Body.run_exec_ok, Body.run_pure_ok] at h
  obtain ⟨rawMeta, _, ⟨hmeta, rfl⟩, output, _, henc, _, mid, hmerge, _, _, rfl, _, _, hrel, rfl,
    rfl⟩ := h
  obtain ⟨hout, rfl⟩ := run_encodeOutput_ok henc
  obtain ⟨ht, rfl⟩ := run_releaseThread_ok hrel
  exact ⟨rfl, .inr ⟨happ, rawMeta, output, mid, hmeta, hout, run_mergeResult_ok hmerge, ht, rfl⟩⟩

/-- Everything a fault-free run of `BeginRunAttempt` that returns can have done. -/
theorem run_beginRunAttemptBody_ok {generation : ℤ} {b : Bool}
    (h : (beginRunAttemptBody ctx runId generation now).run [] db = .ok (b, db')) :
    ∃ r l, db.getRun ctx runId = some r ∧ r.loaded = .ok l ∧
      (b = false ∧ db' = db ∧ (l.status.terminal ∨
          generation < metadataGeneration l.metadata attemptGenerationKey) ∨
        b ∧ l.status.terminal = false ∧
          metadataGeneration l.metadata attemptGenerationKey ≤ generation ∧
          ∃ raw, marshal (.object (Members.insert attemptGenerationKey (.number (.int generation))
              l.metadata)) = some raw ∧
            db' = db.updateRuns (ownRun runId l.tenantId)
              (fun r => { r with metadata := raw, status := .running, updatedAt := now })
              fun _ => rfl) := by
  simp only [beginRunAttemptBody, Body.run_bind_ok, run_load_ok] at h
  obtain ⟨l, _, ⟨r, hr, hl, rfl⟩, h⟩ := h
  refine ⟨r, l, hr, hl, ?_⟩
  split_ifs at h with hguard
  · obtain ⟨rfl, rfl⟩ := Body.run_pure_ok.1 h
    exact .inl ⟨rfl, rfl, by simpa using hguard⟩
  · simp only [Body.run_bind_ok, run_orRaise_ok, Body.run_exec_ok, Body.run_pure_ok] at h
    obtain ⟨raw, _, ⟨hraw, rfl⟩, _, _, rfl, rfl, rfl⟩ := h
    simp only [Bool.or_eq_true, decide_eq_true_eq, not_or, Bool.not_eq_true, not_lt] at hguard
    exact .inr ⟨rfl, hguard.1, hguard.2, raw, hraw, rfl⟩

/-! ## The fence and the rows it guards -/

variable {r : Run}

theorem loaded_ok_iff : r.loaded = .ok l ↔
    decodeMetadata r.metadata = some l.metadata ∧ l.tenantId = r.tenantId ∧
      l.threadId = r.threadId ∧ l.status = r.status := by
  obtain ⟨_, _, _, metadata⟩ := l
  rcases h : decodeMetadata r.metadata with _ | m
  · simp [Run.loaded, h]
  · simp only [Run.loaded, h, Except.ok.injEq, Loaded.mk.injEq, Option.some.injEq]
    tauto

variable {m : Members Number}

section

variable (h : decodeMetadata raw = some m)
include h

/-- The metadata column is empty or null and its map empty, or it is decoded into a map. -/
theorem decodeMetadata_cases :
    m = [] ∧ (∀ k, raw.member k = none) ∨ unmarshalMap Json.decodeFloat raw = some (some m) := by
  rcases raw with _ | _ | v
  · exact .inl ⟨(Option.some.inj h).symm, fun _ => rfl⟩
  · simp [decodeMetadata, Json.unmarshalMap] at h
  · simp only [decodeMetadata, Option.map_eq_some_iff] at h
    obtain ⟨_ | _, hm', rfl⟩ := h
    · refine .inl ⟨rfl, fun k => ?_⟩
      cases v with
      | object => simp [Json.unmarshalMap] at hm'
      | _ => rfl
    · exact .inr hm'

/-- What the decoded metadata holds under a key. -/
theorem lookup_of_decodeMetadata (k : String) :
    m.lookup k = (raw.member k).bind (Json.traverse Json.decodeFloat Members.lastWins) := by
  obtain ⟨rfl, hnone⟩ | hm := decodeMetadata_cases h
  · rw [hnone]
    rfl
  · exact Json.lookup_of_unmarshalMap hm k

/-- Decoding the metadata keeps its strings. -/
theorem string_of_decodeMetadata (k : String) : m.string k = raw.string k := by
  obtain ⟨rfl, hnone⟩ | hm := decodeMetadata_cases h
  · simp [Members.string, Text.string, hnone]
  · exact Json.string_of_unmarshalMap hm k

theorem decoded_of_decodeMetadata : m.Decoded := by
  obtain ⟨rfl, -⟩ | hm := decodeMetadata_cases h
  · exact Members.decoded_nil
  · exact Json.decoded_of_unmarshalMap hm

end

/-- A metadata column that is written back with one more member keeps its other strings. -/
theorem string_rewrite {raw raw' : Text} (h : decodeMetadata raw = some m)
    {k key : String} {v : Json.Value Number} (hne : k ≠ key)
    (hraw : marshal (.object (Members.insert key v m)) = some raw') : raw'.string k = raw.string k := by
  rw [Json.string_marshal ((decoded_of_decodeMetadata h).distinct.insert key v) hraw,
    ← string_of_decodeMetadata h]
  simp [Members.string, Members.lookup_insert_of_ne hne]

theorem get?_of_getRun (h : db.getRun ctx runId = some r) : db.runs.get? runId = some r := by
  rw [Db.getRun_eq] at h
  exact (Option.filter_eq_some_iff.1 h).1

theorem get?_of_select_ownThread {threadId tenantId : String} {t : Thread}
    (h : db.threads.select (ownThread threadId tenantId) = some t) :
    db.threads.get? threadId = some t ∧ t.tenantId = tenantId := by
  have h' : (db.threads.get? threadId).filter (fun t => t.tenantId = tenantId) = some t :=
    (db.threads.select_key_and threadId _).symm.trans h
  simpa using Option.filter_eq_some_iff.1 h'

theorem ownRun_self (h : db.runs.get? runId = some r) : ownRun runId r.tenantId r := by
  simp [ownRun, Table.key_of_get? h]

theorem Merged.runs_eq {mid : Db} (h : Merged l c now db mid) : mid.runs = db.runs := by
  unfold Merged at h
  split at h
  · obtain ⟨t, _, _, _, _, -, -, -, -, rfl⟩ := h
    rfl
  · rw [h]

@[simp] theorem Db.releaseCompleted_runs (l : Loaded) :
    (db.releaseCompleted l c now).runs = db.runs := by
  unfold Db.releaseCompleted
  split_ifs <;> rfl

/-- The row of the run after an applied completion. -/
theorem Completed.get?_runs {db' : Db} (h : Completed l c now db db')
    (hr : db.runs.get? c.runId = some r) (ht : l.tenantId = r.tenantId) : ∃ rawMeta output,
      marshal (.object (Members.insert completionGenerationKey (.number (.int c.generation))
        l.metadata)) = some rawMeta ∧
      (c.values.map fun values => marshal (.object values)) = output.map some ∧
      db'.runs.get? c.runId = some { r with
        metadata := rawMeta, status := c.status, output := output, errorMsg := c.error,
        updatedAt := now } := by
  obtain ⟨rawMeta, output, _, hmeta, hout, hmerge, -, rfl⟩ := h
  refine ⟨rawMeta, output, hmeta, hout, ?_⟩
  rw [Db.releaseCompleted_runs, Db.completeRow, Db.get?_updateRuns, hmerge.runs_eq, hr, ht]
  simp [ownRun_self hr]

theorem Completed.get?_runs_of_ne {db' : Db} (h : Completed l c now db db')
    (hne : runId ≠ c.runId) : db'.runs.get? runId = db.runs.get? runId := by
  obtain ⟨_, _, _, -, -, hmerge, -, rfl⟩ := h
  rw [Db.releaseCompleted_runs, Db.completeRow, Db.get?_updateRuns, hmerge.runs_eq]
  cases hr : db.runs.get? runId with
  | none => rfl
  | some => simp [ownRun, Table.key_of_get? hr, hne]

@[simp] theorem resolveCompletion_status (m : Members Number) :
    (resolveCompletion m c).status = c.status := by
  unfold resolveCompletion
  split_ifs <;> rfl

@[simp] theorem resolveCompletion_runId (m : Members Number) :
    (resolveCompletion m c).runId = c.runId := by
  unfold resolveCompletion
  split_ifs <;> rfl

theorem resolveCompletion_generation (m : Members Number) : (resolveCompletion m c).generation =
      if c.takesCurrent then metadataGeneration m attemptGenerationKey else c.generation := by
  unfold resolveCompletion RunCompletion.takesCurrent
  rcases c.cancelCurrentAttempt with _ | _ <;> rcases c.status <;> rfl

theorem checkCompletion_applied : (checkCompletion m status c).applied ↔
      c.status.terminal ∧ c.generation = metadataGeneration m attemptGenerationKey ∧
        m.lookup completionGenerationKey = none ∧ status.terminal = false := by
  unfold checkCompletion
  generalize m.lookup completionGenerationKey = stored
  rcases stored with _ | v <;> split_ifs <;> simp_all

end Bodies

/-! ## The transactions as a whole -/

variable (d : Dialect) (ctx : Ctx) (now : String) (driver : Driver StoreError) (db : Db)

/-- `BeginRunAttempt` changes nothing, or moves a run that is not terminal to `running` with
the new generation in its metadata. -/
theorem beginRunAttempt_cases (runId : String) (generation : ℤ) :
    (beginRunAttempt ctx runId generation now driver db).2 = db ∨
    ∃ r l raw, db.runs.get? runId = some r ∧ r.loaded = .ok l ∧ r.status.terminal = false ∧
      metadataGeneration l.metadata attemptGenerationKey ≤ generation ∧
      marshal (.object (Members.insert attemptGenerationKey (.number (.int generation))
        l.metadata)) = some raw ∧
      (beginRunAttempt ctx runId generation now driver db).2 =
        db.updateRuns (ownRun runId r.tenantId)
          (fun r => { r with metadata := raw, status := .running, updatedAt := now })
          fun _ => rfl := by
  unfold beginRunAttempt
  obtain ⟨-, heq⟩ | ⟨-, b, hrun, hb⟩ :=
    Transaction.transact_snd (beginRunAttemptBody ctx runId generation now) id driver db
  · exact .inl heq
  obtain ⟨r, l, hr, hl, h⟩ := run_beginRunAttemptBody_ok hrun
  obtain ⟨-, ht, -, hst⟩ := loaded_ok_iff.1 hl
  rcases h with ⟨rfl, -⟩ | ⟨-, hterm, hle, raw, hraw, hdb⟩
  · simp at hb
  · exact .inr ⟨r, l, raw, get?_of_getRun hr, hl, hst ▸ hterm, hle, hraw, ht ▸ hdb⟩

/-- `CompleteRun` changes nothing, or applies its completion, with a terminal status, to a
run that is not terminal. -/
theorem completeRun_cases (c : RunCompletion) :
    Transaction.commits (completeRunInTx d ctx c now) CompletionResult.applied driver db = false ∧
      (completeRun d ctx c now driver db).2 = db ∨
    Transaction.commits (completeRunInTx d ctx c now) CompletionResult.applied driver db ∧
    ∃ r l, db.runs.get? c.runId = some r ∧ r.loaded = .ok l ∧
      (checkCompletion l.metadata r.status (resolveCompletion l.metadata c)).applied ∧
      Completed l (resolveCompletion l.metadata c) now db (completeRun d ctx c now driver db).2 := by
  unfold completeRun
  refine (Transaction.transact_snd _ _ _ _).imp_right fun ⟨hc, _, hrun, happ⟩ => ?_
  obtain ⟨r, l, hr, hl, hres, h⟩ := run_completeRunInTx_ok hrun
  obtain ⟨-, -, -, hst⟩ := loaded_ok_iff.1 hl
  rcases h with ⟨h, -⟩ | ⟨-, hcomp⟩
  · simp [h] at happ
  · exact ⟨hc, r, l, get?_of_getRun hr, hl, by rwa [hres, hst] at happ, hcomp⟩

end Runkite
