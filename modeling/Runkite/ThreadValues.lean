import Runkite.RunsApi

/-!
# The values of a thread

`PATCH /threads/{id}` and `POST /threads/{id}/state` read the values of a thread, merge theirs into
what they read and write the whole document back in a statement of its own; a completion merges its
values inside its transaction. What is written between the read and the write of a request is
replaced by what the request read.

`value_kept` says how long a value stays under its key. `patch_loses_completion` is a patch that
brings no values and takes those of a completion away.

The metadata of a thread, which a patch merges in the same way, are no column of `Thread` : a patch
of metadata alone is one without values, and the checkpoint of a state update gets them from `Call`.
-/

open Binary64 (Decimal)
open Json (Members Number Text Value decodeNumber encode marshal traverse unmarshalMap)
open Transaction (Body Driver commits execChecked query transact write)

namespace Runkite

/-! ## The statements -/

/-- The values of a thread after a patch; a nil map stays nil where the patch brings none. -/
def patchValues (existing patch : Option (Members Number)) : Option (Members Number) :=
  match patch.getD [] with
  | [] => existing
  | values => some (Members.override (existing.getD []) values)

/-- `vals, _ := json.Marshal(existing.Values)`. -/
def valuesText (values : Option (Members Number)) : Text :=
  (marshal (values.elim .null .object)).getD .empty

structure ThreadPatch where
  values : Option (Members Number) := none
  ifMatchVersion : Option ℤ := none

/-- The `WHERE` of `UpdateThread`. -/
def matchesPatch (ctx : Ctx) (threadId : String) (ifMatchVersion : Option ℤ) (t : Thread) : Bool :=
  t.threadId = threadId && ctx.sees t.tenantId &&
    ifMatchVersion.all fun version : ℤ => version = t.version

/-- The statement of `UpdateThread`, which returns the new version of the row. -/
def writeThread (ctx : Ctx) (threadId : String) (ifMatchVersion : Option ℤ)
    (values : Option (Members Number)) (now : String) (db : Db) : Except StoreError (Option ℕ × Db) :=
  .ok ((db.threads.select (matchesPatch ctx threadId ifMatchVersion)).map fun t => t.version + 1,
    db.updateThreads (matchesPatch ctx threadId ifMatchVersion)
      (fun t => { t with values := valuesText values, version := t.version + 1, updatedAt := now })
      fun _ => rfl)

/-- What `UpdateThread` returns after its statement. An unconditional one that matched no row
returns the thread it would have written. -/
def updatedThread (existing : Thread) (values : Option (Members Number)) (ifMatchVersion : Option ℤ)
    (now : String) : Option ℕ → Except StoreError Thread
  | some version => .ok { existing with values := valuesText values, version, updatedAt := now }
  | none =>
    match ifMatchVersion with
    | some _ => .error (.conflict "thread" existing.threadId "version mismatch (optimistic concurrency)")
    | none =>
      .ok { existing with
        values := valuesText values, version := existing.version + 1, updatedAt := now }

/-- The text decodes into a slice. -/
def decodesArray : Text → Bool
  | .document .null | .document (.array _) => true
  | _ => false

/-- `GetLatestCheckpoint`; the values, tasks and interrupts of the row have to decode. -/
def fetchLatestCheckpoint (ctx : Ctx) (threadId : String) (db : Db) : Except StoreError Checkpoint :=
  let newest := (db.checkpoints.rows.filter fun c => c.threadId = threadId && ctx.sees c.tenantId).foldl
    (fun best c =>
      match best with
      | none => some c
      | some b => if b.createdAt < c.createdAt then some c else some b) none
  match newest with
  | none => .error (.notFound "checkpoint" "latest")
  | some c =>
    if (unmarshalMap decodeNumber c.values).isSome && decodesArray c.tasks && decodesArray c.interrupts
    then .ok c else .error .json

/-- `SaveCheckpoint`, under the lock of the thread. -/
def saveCheckpointBody (ctx : Ctx) (c : Checkpoint) : Body Db StoreError Unit := do
  let _ ← lockThread ctx c.threadId
  execChecked fun db =>
    match db.checkpoints.insert c with
    | some checkpoints => .ok { db with checkpoints := checkpoints }
    | none => .error (.statement "UNIQUE constraint failed: thread_checkpoints.checkpoint_id")

def saveCheckpoint (ctx : Ctx) (c : Checkpoint) (driver : Driver StoreError) (db : Db) :
    Except StoreError Unit × Db :=
  transact (saveCheckpointBody ctx c) (fun _ => true) driver db

/-- The checkpoint that a request saves. -/
def stateCheckpoint (ctx : Ctx) (threadId checkpointId : String) (values : Option (Members Number))
    (parent : Option String) (metadata : Text) (now : String) : Checkpoint where
  tenantId := ctx.tenant
  checkpointId := checkpointId
  threadId := threadId
  checkpointNs := ""
  parentId := parent
  values := valuesText values
  metadata := metadata
  nextNodes := emptyArray
  tasks := emptyArray
  interrupts := emptyArray
  createdAt := now

/-! ## The requests -/

/-- What surrounds one call of a request to the store. -/
structure Call where
  now : String := ""
  /-- The metadata of the thread. -/
  metadata : Text := emptyObject
  driver : Driver StoreError := {}

/-- A `PATCH` of a thread, by the call it makes next. -/
inductive PatchPhase where
  | read
  | write (existing : Thread) (values : Option (Members Number))
  | parent (updated : Thread) (values : Option (Members Number))
  | save (updated : Thread) (values : Option (Members Number)) (parent : Option String)
  | done (answer : Except StoreError Thread)

structure PatchRequest where
  ctx : Ctx
  threadId : String
  patch : ThreadPatch
  checkpointId : String
  phase : PatchPhase := .read

/-- A `POST` to the state of a thread, by the call it makes next. It ends in an `UpdateThread` with
the values it merged, which reads the thread once more. -/
inductive StatePhase where
  | load
  | parent (merged : Members Number)
  | save (merged : Members Number) (parent : Option String)
  | read (merged : Members Number)
  | write (values : Option (Members Number))
  | done (answer : Except StoreError String)

structure StateRequest where
  ctx : Ctx
  threadId : String
  values : Option (Members Number)
  checkpointId : String
  phase : StatePhase := .load

/-- Where a patch goes on after the statement of `UpdateThread`. Values that it brings get a
checkpoint. -/
def PatchRequest.written (call : Call) (r : PatchRequest) (existing : Thread)
    (values : Option (Members Number)) (version : Except StoreError (Option ℕ)) : PatchPhase :=
  match version.bind (updatedThread existing values r.patch.ifMatchVersion call.now) with
  | .error e => .done (.error e)
  | .ok updated =>
    if (r.patch.values.getD []).isEmpty then .done (.ok updated) else .parent updated values

/-- `handlePatchThread`, one call. -/
def PatchRequest.next (call : Call) (r : PatchRequest) (db : Db) : PatchPhase × Db :=
  match r.phase with
  | .read =>
    match query call.driver (fetchThread r.ctx r.threadId) db with
    | .error e => (.done (.error e), db)
    | .ok (existing, values) => (.write existing (patchValues values r.patch.values), db)
  | .write existing values =>
    let (version, db) := write call.driver
      (writeThread r.ctx r.threadId r.patch.ifMatchVersion values call.now) db
    (r.written call existing values version, db)
  | .parent updated values =>
    let latest := query call.driver (fetchLatestCheckpoint r.ctx r.threadId) db
    (.save updated values (latest.toOption.map Checkpoint.checkpointId), db)
  | .save updated values parent =>
    (.done (.ok updated), (saveCheckpoint r.ctx
      (stateCheckpoint r.ctx r.threadId r.checkpointId values parent emptyObject call.now)
      call.driver db).2)
  | .done answer => (.done answer, db)

/-- `handleUpdateThreadState`, one call. The error of the last `UpdateThread` is only logged. -/
def StateRequest.next (call : Call) (r : StateRequest) (db : Db) : StatePhase × Db :=
  match r.phase with
  | .load =>
    match query call.driver (fetchThread r.ctx r.threadId) db with
    | .error e => (.done (.error e), db)
    | .ok (_, values) => (.parent (Members.override (values.getD []) (r.values.getD [])), db)
  | .parent merged =>
    let latest := query call.driver (fetchLatestCheckpoint r.ctx r.threadId) db
    (.save merged (latest.toOption.map Checkpoint.checkpointId), db)
  | .save merged parent =>
    let (saved, db) := saveCheckpoint r.ctx (stateCheckpoint r.ctx r.threadId r.checkpointId
      (some merged) parent call.metadata call.now) call.driver db
    match saved with
    | .error e => (.done (.error e), db)
    | .ok _ => (.read merged, db)
  | .read merged =>
    match query call.driver (fetchThread r.ctx r.threadId) db with
    | .error _ => (.done (.ok r.checkpointId), db)
    | .ok (_, values) => (.write (patchValues values (some merged)), db)
  | .write values =>
    (.done (.ok r.checkpointId),
      (write call.driver (writeThread r.ctx r.threadId none values call.now) db).2)
  | .done answer => (.done answer, db)

inductive ThreadRequest where
  | patch (r : PatchRequest)
  | updateState (r : StateRequest)

def ThreadRequest.next (call : Call) (db : Db) : ThreadRequest → ThreadRequest × Db
  | .patch r => (.patch { r with phase := (r.next call db).1 }, (r.next call db).2)
  | .updateState r => (.updateState { r with phase := (r.next call db).1 }, (r.next call db).2)

/-! ## The machine -/

/-- The store and the requests in flight. -/
structure Editing where
  db : Db
  requests : List ThreadRequest := []

inductive EditEvent where
  | patch (ctx : Ctx) (threadId : String) (patch : ThreadPatch) (checkpointId : String)
  | updateState (ctx : Ctx) (threadId : String) (values : Option (Members Number))
      (checkpointId : String)
  /-- The next call of a request. -/
  | proceed (i : ℕ) (call : Call)
  | completeRun (d : Dialect) (ctx : Ctx) (c : RunCompletion) (now : String)
      (driver : Driver StoreError)

def Editing.step : EditEvent → Editing → Editing
  | .patch ctx threadId patch checkpointId, w =>
    { w with requests := w.requests ++ [.patch { ctx, threadId, patch, checkpointId }] }
  | .updateState ctx threadId values checkpointId, w =>
    { w with requests := w.requests ++ [.updateState { ctx, threadId, values, checkpointId }] }
  | .proceed i call, w =>
    match w.requests[i]? with
    | none => w
    | some r =>
      { db := (r.next call w.db).2, requests := w.requests.set i (r.next call w.db).1 }
  | .completeRun d ctx c now driver, w =>
    { w with db := (Runkite.completeRun d ctx c now driver w.db).2 }

/-! ## What a thread shows -/

/-- The value under a key of a document, as it is read and written again. -/
def shown (k : String) (t : Text) : Option (Value Decimal) :=
  (t.member k).bind fun v => (traverse decodeNumber Members.lastWins v).bind encode

/-- The value that a thread shows under a key. -/
def Db.valueAt (db : Db) (threadId k : String) : Option (Value Decimal) :=
  (db.threads.get? threadId).bind fun t => shown k t.values

/-- A map in memory that is written with `s` under the key. -/
structure Shows (k : String) (s : Option (Value Decimal)) (ms : Members Number) : Prop where
  distinct : ms.Distinct
  keyed : ∀ v, ms.lookup k = some v → v.Keyed
  eq : (ms.lookup k).bind encode = s

variable {k : String} {s : Option (Value Decimal)} {t : Text} {old new : Members Number}
  {values patch : Option (Members Number)}

/-- A map that was read from a document shows what the document does. -/
theorem Shows.of_unmarshalMap (h : unmarshalMap decodeNumber t = some values) :
    Shows k (shown k t) (values.getD []) := by
  cases values with
  | none =>
    have hnone : t.member k = none := Json.member_eq_none_of_unmarshalMap h rfl
    refine ⟨List.nodup_nil, fun v hv => ?_, ?_⟩
    · cases hv
    · rw [shown, hnone]
      rfl
  | some =>
    have hlookup := Json.lookup_of_unmarshalMap h k
    refine ⟨Json.distinct_of_unmarshalMap h, fun v hv => ?_, ?_⟩
    · obtain ⟨d, -, hd⟩ := Option.bind_eq_some_iff.1 (hlookup.symm.trans hv)
      exact Json.keyed_traverse hd
    · rw [Option.getD_some, hlookup, Option.bind_assoc]
      rfl

theorem Shows.of_decodeValues (h : decodeValues t = some old) : Shows k (shown k t) old := by
  cases t with
  | empty =>
    cases h
    exact ⟨List.nodup_nil, fun v hv => (by cases hv), rfl⟩
  | malformed => cases h
  | document =>
    obtain ⟨_, hvalues, rfl⟩ := Option.map_eq_some_iff.1 h
    exact .of_unmarshalMap hvalues

/-- Merging in a map that does not have the key, or shows the same under it. -/
theorem Shows.override (hold : Shows k s old) (hnew : new.lookup k = none ∨ Shows k s new) :
    Shows k s (Members.override old new) := by
  have hlookup := Members.lookup_override old new k
  cases hv : new.lookup k with
  | none =>
    rw [hv, Option.none_or] at hlookup
    exact ⟨hold.distinct.override new, fun v h => hold.keyed v (hlookup ▸ h), hlookup ▸ hold.eq⟩
  | some v =>
    rw [hv, Option.some_or] at hlookup
    obtain hnone | hnew := hnew
    · rw [hnone] at hv
      cases hv
    · rw [← hv] at hlookup
      exact ⟨hold.distinct.override new, fun v h => hnew.keyed v (hlookup ▸ h), hlookup ▸ hnew.eq⟩

theorem Shows.patchValues (hold : Shows k s (values.getD []))
    (hnew : (patch.getD []).lookup k = none ∨ Shows k s (patch.getD [])) :
    Shows k s ((patchValues values patch).getD []) := by
  unfold Runkite.patchValues
  generalize patch.getD [] = new at hnew
  cases new with
  | nil => exact hold
  | cons => exact hold.override hnew

/-- What is written of a map is what the map shows. -/
theorem Shows.shown (h : Shows k s (values.getD [])) : shown k (valuesText values) = s := by
  cases values with
  | none => exact h.eq
  | some ms =>
    obtain ⟨text, htext⟩ := Json.exists_marshal (.object ms)
    have hwritten : valuesText (some ms) = text := by
      rw [valuesText, Option.elim_some, htext, Option.getD_some]
    rw [hwritten, Runkite.shown, Json.member_marshal h.distinct htext, ← h.eq]
    cases hv : ms.lookup k with
    | none => rw [Option.getD_some, hv]; rfl
    | some v =>
      obtain ⟨d, hd⟩ : ∃ d, encode v = some d :=
        Option.isSome_iff_exists.1 (Json.isSome_traverse
          (Json.Value.all_of_forall Json.Number.isSome_encode v))
      obtain ⟨w, hw⟩ : ∃ w, traverse decodeNumber Members.lastWins d = some w :=
        Option.isSome_iff_exists.1 (Json.isSome_traverse (Json.Value.all_of_forall (fun _ => rfl) d))
      -- what is written is canonical, and stays as it is when it is read and written again
      have hagain := Json.encode_decode (Json.canonical_encode (h.keyed v hv) hd) hw
      rw [Option.getD_some, hv, Option.bind_some, hd, Option.bind_some, hw, Option.bind_some, hagain]

/-! ## What a request carries -/

namespace ThreadRequest

def ctx : ThreadRequest → Ctx
  | .patch r => r.ctx
  | .updateState r => r.ctx

def threadId : ThreadRequest → String
  | .patch r => r.threadId
  | .updateState r => r.threadId

/-- The values of the request have the key. -/
def names (k : String) : ThreadRequest → Bool
  | .patch r => ((r.patch.values.getD []).lookup k).isSome
  | .updateState r => ((r.values.getD []).lookup k).isSome

/-- The request has read the thread that it is yet to write. -/
def hasRead : ThreadRequest → Bool
  | .patch r =>
    match r.phase with
    | .write _ _ => true
    | _ => false
  | .updateState r =>
    match r.phase with
    | .load | .done _ => false
    | _ => true

/-- What the next call writes, if it is the one that writes the thread. -/
def writing : ThreadRequest → Option ThreadPatch
  | .patch r =>
    match r.phase with
    | .write _ values => some { values, ifMatchVersion := r.patch.ifMatchVersion }
    | _ => none
  | .updateState r =>
    match r.phase with
    | .write values => some { values }
    | _ => none

/-- The next call writes the thread, and takes effect. -/
def commits (call : Call) (db : Db) (r : ThreadRequest) : Bool :=
  r.writing.any fun p =>
    Transaction.commits (Body.statement
      (writeThread r.ctx r.threadId p.ifMatchVersion p.values call.now) Body.done) (fun _ => true)
      call.driver db &&
    (db.threads.select (matchesPatch r.ctx r.threadId p.ifMatchVersion)).isSome

/-- What the request has read, and is to write, shows `s` under the key. -/
def Carries (k : String) (s : Option (Value Decimal)) : ThreadRequest → Prop
  | .patch r =>
    match r.phase with
    | .write _ values => Shows k s (values.getD [])
    | _ => True
  | .updateState r =>
    match r.phase with
    | .parent merged | .save merged _ | .read merged => Shows k s merged
    | .write values => Shows k s (values.getD [])
    | _ => True

end ThreadRequest

variable {threadId : String} {call : Call} {db : Db}
  {r : ThreadRequest}

theorem ThreadRequest.carries_of_not_hasRead (h : r.hasRead = false) : r.Carries k s := by
  cases r with
  | patch r | updateState r =>
    simp only [hasRead, Carries] at h ⊢
    cases hphase : r.phase <;> simp_all

/-- A read of the thread finds what the thread shows. -/
theorem shows_of_fetchThread {driver : Driver StoreError} {ctx : Ctx} {t : Thread}
    {values : Option (Members Number)}
    (h : query driver (fetchThread ctx threadId) db = .ok (t, values)) :
    Shows k (db.valueAt threadId k) (values.getD []) := by
  have hfetch := Transaction.query_ok h
  unfold fetchThread at hfetch
  cases hget : db.getThread ctx threadId with
  | none =>
    rw [hget] at hfetch
    cases hfetch
  | some t' =>
    simp only [hget] at hfetch
    cases hdecode : unmarshalMap decodeNumber t'.values with
    | none =>
      rw [hdecode] at hfetch
      cases hfetch
    | some =>
      simp only [hdecode, Except.ok.injEq, Prod.mk.injEq] at hfetch
      obtain ⟨rfl, rfl⟩ := hfetch
      rw [Db.getThread, Table.select_key_and] at hget
      rw [Db.valueAt, (Option.filter_eq_some_iff.1 hget).1]
      exact .of_unmarshalMap hdecode

theorem PatchRequest.written_cases (call : Call) (r : PatchRequest) (existing : Thread)
    (values : Option (Members Number)) (version : Except StoreError (Option ℕ)) :
    (∃ answer, r.written call existing values version = .done answer) ∨
      ∃ updated, r.written call existing values version = .parent updated values := by
  unfold PatchRequest.written
  cases version.bind (updatedThread existing values r.patch.ifMatchVersion call.now) with
  | error => exact .inl ⟨_, rfl⟩
  | ok =>
    by_cases hempty : (r.patch.values.getD []).isEmpty
    · exact .inl ⟨_, if_pos hempty⟩
    · exact .inr ⟨_, if_neg hempty⟩

theorem ThreadRequest.Carries.next (h : r.Carries k s) (hnames : r.names k = false)
    (hdb : db.valueAt r.threadId k = s) : (r.next call db).1.Carries k s := by
  have hread {ctx found} (hq : query call.driver (fetchThread ctx r.threadId) db = .ok found) :
      Shows k s (found.2.getD []) := hdb ▸ shows_of_fetchThread hq
  cases r with
  | patch r =>
    obtain ⟨ctx, threadId, patch, checkpointId, phase⟩ := r
    simp only [names, Option.isSome_eq_false_iff, Option.isNone_iff_eq_none] at hnames
    cases phase with
    | read =>
      simp only [ThreadRequest.next, PatchRequest.next]
      cases hq : query call.driver (fetchThread ctx threadId) db with
      | error => trivial
      | ok => exact (hread hq).patchValues (.inl hnames)
    | write existing values =>
      simp only [ThreadRequest.next, PatchRequest.next, Carries]
      obtain ⟨_, hgoes⟩ | ⟨_, hgoes⟩ := PatchRequest.written_cases call
        { ctx, threadId, patch, checkpointId, phase := .write existing values } existing values
        (write call.driver (writeThread ctx threadId patch.ifMatchVersion values call.now) db).1
      · simp [hgoes]
      · simp [hgoes]
    | parent | save | done => trivial
  | updateState r =>
    obtain ⟨ctx, threadId, _, _, phase⟩ := r
    simp only [names, Option.isSome_eq_false_iff, Option.isNone_iff_eq_none] at hnames
    cases phase with
    | load =>
      simp only [ThreadRequest.next, StateRequest.next]
      cases hq : query call.driver (fetchThread ctx threadId) db with
      | error => trivial
      | ok => exact (hread hq).override (.inl hnames)
    | parent => exact h
    | save =>
      simp only [ThreadRequest.next, StateRequest.next]
      generalize saveCheckpoint _ _ _ _ = saved
      obtain ⟨_ | _, _⟩ := saved
      · trivial
      · exact h
    | read =>
      simp only [ThreadRequest.next, StateRequest.next]
      cases hq : query call.driver (fetchThread ctx threadId) db with
      | error => trivial
      | ok => exact (hread hq).patchValues (.inr h)
    | write | done => trivial

theorem threads_saveCheckpoint (ctx : Ctx) (c : Checkpoint) (driver : Driver StoreError) (db : Db) :
    (saveCheckpoint ctx c driver db).2.threads = db.threads := by
  unfold saveCheckpoint
  obtain ⟨-, heq⟩ | ⟨-, _, hrun, -⟩ :=
    Transaction.transact_snd (saveCheckpointBody ctx c) (fun _ => true) driver db
  · rw [heq]
  generalize (transact (saveCheckpointBody ctx c) (fun _ => true) driver db).2 = db' at hrun ⊢
  simp only [saveCheckpointBody, lockThread, Body.run_bind_ok, Body.run_select_ok,
    Body.run_execChecked_ok] at hrun
  obtain ⟨_, _, ⟨-, rfl⟩, hinsert⟩ := hrun
  cases hi : db.checkpoints.insert c with
  | none =>
    rw [hi] at hinsert
    cases hinsert
  | some =>
    simp only [hi, Except.ok.injEq] at hinsert
    rw [← hinsert]

theorem ThreadRequest.shows_of_writing (r : ThreadRequest) {p : ThreadPatch} (h : r.Carries k s)
    (hp : r.writing = some p) : Shows k s (p.values.getD []) := by
  cases r with
  | patch r =>
    obtain ⟨ctx, threadId, _, checkpointId, phase⟩ := r
    cases phase with
    | write =>
      cases hp
      exact h
    | _ => cases hp
  | updateState r =>
    obtain ⟨_, _, _, _, phase⟩ := r
    cases phase with
    | write =>
      cases hp
      exact h
    | _ => cases hp

theorem ThreadRequest.next_threads (call : Call) (db : Db) (r : ThreadRequest) :
    (r.next call db).2.threads = db.threads ∨ ∃ p, r.writing = some p ∧
      (r.next call db).2 = (write call.driver
        (writeThread r.ctx r.threadId p.ifMatchVersion p.values call.now) db).2 := by
  cases r with
  | patch r =>
    obtain ⟨ctx, threadId, _, checkpointId, phase⟩ := r
    cases phase with
    | read =>
      refine .inl ?_
      simp only [ThreadRequest.next, PatchRequest.next]
      cases query call.driver (fetchThread ctx threadId) db <;> rfl
    | write => exact .inr ⟨_, rfl, rfl⟩
    | parent | done => exact .inl rfl
    | save => exact .inl (threads_saveCheckpoint _ _ _ _)
  | updateState r =>
    obtain ⟨ctx, threadId, _, checkpointId, phase⟩ := r
    cases phase with
    | load | read =>
      refine .inl ?_
      simp only [ThreadRequest.next, StateRequest.next]
      cases query call.driver (fetchThread ctx threadId) db <;> rfl
    | parent | done => exact .inl rfl
    | save merged parent =>
      refine .inl ?_
      have hkept := threads_saveCheckpoint ctx (stateCheckpoint ctx threadId checkpointId
        (some merged) parent call.metadata call.now) call.driver db
      simp only [ThreadRequest.next, StateRequest.next]
      cases hsaved : (saveCheckpoint ctx (stateCheckpoint ctx threadId checkpointId
        (some merged) parent call.metadata call.now) call.driver db).1 <;> exact hkept
    | write => exact .inr ⟨_, rfl, rfl⟩

/-- What a call of a request does to the value of a thread under a key. -/
theorem ThreadRequest.valueAt_next (call : Call) (db : Db) (r : ThreadRequest) (threadId k : String) :
    (r.next call db).2.valueAt threadId k = db.valueAt threadId k ∨
      r.threadId = threadId ∧ r.commits call db ∧ ∃ p, r.writing = some p ∧
        (r.next call db).2.valueAt threadId k = shown k (valuesText p.values) := by
  obtain hkept | ⟨p, hp, hdb⟩ := r.next_threads call db
  · rw [Db.valueAt, hkept]
    exact .inl rfl
  obtain ⟨-, heq⟩ | ⟨hc, version, hrun, -⟩ := Transaction.transact_snd (.statement
    (writeThread r.ctx r.threadId p.ifMatchVersion p.values call.now) .done) (fun _ => true)
    call.driver db
  · rw [hdb, write, heq]
    exact .inl rfl
  obtain ⟨-, hwritten⟩ := Prod.mk.inj (Except.ok.inj hrun)
  have hafter : (r.next call db).2.threads.get? threadId =
      (db.threads.get? threadId).map fun t =>
        if matchesPatch r.ctx r.threadId p.ifMatchVersion t then
          { t with values := valuesText p.values, version := t.version + 1, updatedAt := call.now }
        else t := by
    rw [hdb, write, ← hwritten]
    exact db.get?_updateThreads _ _ _ threadId
  cases ht : db.threads.get? threadId with
  | none => exact .inl (by rw [Db.valueAt, Db.valueAt, hafter, ht]; rfl)
  | some t =>
    cases hm : matchesPatch r.ctx r.threadId p.ifMatchVersion t with
    | false => exact .inl (by rw [Db.valueAt, Db.valueAt, hafter, ht, Option.map_some, hm]; rfl)
    | true =>
      have hid : r.threadId = threadId := by
        simp only [matchesPatch, Bool.and_eq_true, decide_eq_true_eq] at hm
        rw [← hm.1.1, Table.key_of_get? ht]
      have hselected : (db.threads.select (matchesPatch r.ctx r.threadId p.ifMatchVersion)).isSome :=
        List.find?_isSome.2 ⟨t, (Table.get?_eq_some_iff.1 ht).1, hm⟩
      refine .inr ⟨hid, ?_, p, hp, ?_⟩
      · rw [ThreadRequest.commits, hp, Option.any_some, hc, hselected]
        rfl
      · rw [Db.valueAt, hafter, ht, Option.map_some, hm]
        rfl

/-! ## Completions -/

/-- The completion brings the thread a value under the key. -/
def RunCompletion.names (k : String) (c : RunCompletion) : Bool :=
  !c.cancelCurrentAttempt && ((c.values.getD []).lookup k).isSome

theorem Db.valueAt_updateThreads {p : Thread → Bool} {f : Thread → Thread} {hf}
    (hvalues : ∀ t, (f t).values = t.values) :
    (db.updateThreads p f hf).valueAt threadId k = db.valueAt threadId k := by
  rw [Db.valueAt, Db.get?_updateThreads, Db.valueAt, Option.bind_map]
  congr 1
  funext t
  by_cases hp : p t
  · simp [Function.comp_apply, if_pos hp, hvalues]
  · simp [Function.comp_apply, if_neg hp]

theorem Merged.valueAt {l : Loaded} {c : RunCompletion} {now : String} {mid : Db}
    (h : Merged l c now db mid) (hkept : l.threadId = threadId → c.names k = false) :
    mid.valueAt threadId k = db.valueAt threadId k := by
  unfold Merged at h
  split at h
  · rename_i values hvalues hcancel
    obtain ⟨t, old, raw, _, _, ht, hold, hraw, -, rfl⟩ := h
    obtain ⟨hget, htenant⟩ := get?_of_select_ownThread ht
    simp only [Db.valueAt, Db.get?_updateThreads]
    by_cases hid : l.threadId = threadId
    · have hnone : values.lookup k = none := by
        have hnames := hkept hid
        simpa [RunCompletion.names, hvalues, hcancel] using hnames
      have hown : ownThread l.threadId l.tenantId t := by
        simp [ownThread, Table.key_of_get? hget, htenant]
      have hshown : Shows k (shown k t.values) ((some (Members.override old values)).getD []) :=
        (Shows.of_decodeValues hold).override (.inl hnone)
      have hraw' : valuesText (some (Members.override old values)) = raw := by
        rw [valuesText, Option.elim_some, hraw, Option.getD_some]
      subst hid
      rw [hget, Option.map_some, if_pos hown]
      exact hraw' ▸ hshown.shown
    · cases ht' : db.threads.get? threadId with
      | none => rfl
      | some t' =>
        have hother : ownThread l.threadId l.tenantId t' = false := by
          simp [ownThread, Table.key_of_get? ht', Ne.symm hid]
        rw [Option.map_some, hother]
        rfl
  · rw [h]

/-- A completion leaves the values of other threads, and those it does not name. -/
theorem valueAt_completeRun (d : Dialect) (ctx : Ctx) (c : RunCompletion) (now : String)
    (driver : Driver StoreError)
    (h : commits (completeRunInTx d ctx c now) CompletionResult.applied driver db →
      (∃ r, db.getRun ctx c.runId = some r ∧ r.threadId = threadId) → c.names k = false) :
    (completeRun d ctx c now driver db).2.valueAt threadId k = db.valueAt threadId k := by
  unfold completeRun
  obtain ⟨-, heq⟩ | ⟨hc, _, hrun, happlied⟩ :=
    Transaction.transact_snd (completeRunInTx d ctx c now) CompletionResult.applied driver db
  · rw [heq]
  obtain ⟨r, l, hr, hl, -, ⟨hnot, -⟩ | ⟨-, _, _, _, -, -, hmerged, -, hdb⟩⟩ :=
    run_completeRunInTx_ok hrun
  · rw [happlied] at hnot
    cases hnot
  rw [hdb]
  have hrelease : ∀ db' : Db, ∀ c' : RunCompletion,
      (db'.releaseCompleted l c' now).valueAt threadId k = db'.valueAt threadId k := by
    intro db' c'
    unfold Db.releaseCompleted
    split_ifs
    · exact Db.valueAt_updateThreads fun _ => rfl
    · rfl
  rw [hrelease]
  refine hmerged.valueAt fun hid => ?_
  have hnames : c.names k = false := h hc ⟨r, hr, (loaded_ok_iff.1 hl).2.2.1 ▸ hid⟩
  unfold resolveCompletion
  split_ifs with hplain
  · exact hnames
  · simp only [Bool.or_eq_true, not_or, Bool.not_eq_true', Bool.not_eq_true, Bool.not_eq_false] at hplain
    simp [RunCompletion.names, hplain.1]

/-! ## Interleavings -/

/-- The step commits an operation on the thread that names the key, or that had read the thread in
the state `start`. -/
def Editing.overwrites (start : Editing) (threadId k : String) (ev : EditEvent) (w : Editing) : Prop :=
  match ev with
  | .proceed i call => ∃ r, w.requests[i]? = some r ∧ r.threadId = threadId ∧
      r.commits call w.db = true ∧
      (r.names k = true ∨ ∃ r₀, start.requests[i]? = some r₀ ∧ r₀.hasRead = true)
  | .completeRun d ctx c now driver =>
    commits (completeRunInTx d ctx c now) CompletionResult.applied driver w.db = true ∧
      (∃ r, w.db.getRun ctx c.runId = some r ∧ r.threadId = threadId) ∧ c.names k = true
  | _ => False

/-- The thread shows `s` under the key, and so do the requests that may write it back. -/
structure Editing.Keeps (start : Editing) (threadId k : String) (s : Option (Value Decimal))
    (w : Editing) : Prop where
  shown : w.db.valueAt threadId k = s
  carried : ∀ (i : ℕ) (r : ThreadRequest), w.requests[i]? = some r → r.threadId = threadId →
    r.names k = false → (∃ r₀, start.requests[i]? = some r₀ ∧ r₀.hasRead = true) ∨ r.Carries k s

variable {start w : Editing} {ev : EditEvent}

theorem Editing.keeps_start (w : Editing) (threadId k : String) :
    w.Keeps threadId k (w.db.valueAt threadId k) w where
  shown := rfl
  carried i r hr _ _ := by
    cases hread : r.hasRead with
    | true => exact .inl ⟨r, hr, hread⟩
    | false => exact .inr (ThreadRequest.carries_of_not_hasRead hread)

/-- A request that arrives has read nothing. -/
theorem Editing.Keeps.arrive (h : start.Keeps threadId k s w) {r : ThreadRequest}
    (hr : r.hasRead = false) : start.Keeps threadId k s { w with requests := w.requests ++ [r] } where
  shown := h.shown
  carried i r' hr' := by
    rw [List.getElem?_append] at hr'
    split_ifs at hr' with hlt
    · exact h.carried i r' hr'
    · intro _ _
      obtain rfl := List.mem_singleton.1 (List.mem_of_getElem? hr')
      exact .inr (ThreadRequest.carries_of_not_hasRead hr)

theorem ThreadRequest.next_same (call : Call) (db : Db) (r : ThreadRequest) (k : String) :
    (r.next call db).1.threadId = r.threadId ∧ (r.next call db).1.names k = r.names k := by
  cases r <;> exact ⟨rfl, rfl⟩

theorem Editing.Keeps.step (h : start.Keeps threadId k s w)
    (hev : ¬ start.overwrites threadId k ev w) : start.Keeps threadId k s (w.step ev) := by
  cases ev with
  | patch | updateState => exact h.arrive rfl
  | completeRun d ctx c now driver =>
    refine ⟨?_, h.carried⟩
    rw [← h.shown]
    refine valueAt_completeRun d ctx c now driver fun hc hr => ?_
    by_contra hnames
    exact hev ⟨hc, hr, eq_true_of_ne_false hnames⟩
  | proceed i call =>
    cases hi : w.requests[i]? with
    | none => rwa [show w.step (.proceed i call) = w by simp [Editing.step, hi]]
    | some r =>
      rw [show w.step (.proceed i call) = ⟨(r.next call w.db).2, w.requests.set i (r.next call w.db).1⟩
        by simp [Editing.step, hi]]
      refine ⟨?_, fun j r' hj hid hnames => ?_⟩
      · obtain hkept | ⟨hid, hc, p, hp, hwritten⟩ := r.valueAt_next call w.db threadId k
        · exact hkept.trans h.shown
        · -- the request neither names the key nor had read before : what it writes back shows `s`
          have hnames : r.names k = false := by
            by_contra hnames
            exact hev ⟨r, hi, hid, hc, .inl (eq_true_of_ne_false hnames)⟩
          obtain hstale | hcarries := h.carried i r hi hid hnames
          · exact absurd ⟨r, hi, hid, hc, .inr hstale⟩ hev
          · exact hwritten.trans (r.shows_of_writing hcarries hp).shown
      · rw [List.getElem?_set] at hj
        split_ifs at hj with hij hlt
        · subst hij
          cases hj
          obtain ⟨hid', hnames'⟩ := r.next_same call w.db k
          rw [hid'] at hid
          rw [hnames'] at hnames
          refine (h.carried i r hi hid hnames).imp id fun hcarries => hcarries.next hnames ?_
          rw [hid]
          exact h.shown
        · exact h.carried j r' hj hid hnames

theorem value_kept (w : Editing) (evs : List EditEvent) (threadId k : String)
    (h : Trace.Every Editing.step (fun ev w' => ¬ w.overwrites threadId k ev w') evs w) :
    (Trace.run Editing.step evs w).db.valueAt threadId k = w.db.valueAt threadId k := by
  have hkeeps := @Trace.invariant _ _ _ _
    (fun w' => w.Keeps threadId k (w.db.valueAt threadId k) w')
    (fun _ _ hev hw' => hw'.step hev) _ _ h (w.keeps_start threadId k)
  exact hkeeps.shown

/-- A thread without values, and a run of it that has completed with one. -/
def completedThread : Editing :=
  Editing.step
    (.completeRun {} {} { runId := "r", generation := 0, status := .success,
                          values := some [("k", .bool true)] } "now" {})
    { db := .single { Thread.fresh "t" with values := emptyObject } (Run.fresh "r" "t") }

/-- A patch of another key, from its arrival to its write. -/
theorem value_kept_patch : (completedThread.db.valueAt "t" "k").isSome = true ∧
    (Trace.run Editing.step [.patch {} "t" { values := some [("a", .null)] } "c", .proceed 0 {},
      .proceed 0 {}] completedThread).db.valueAt "t" "k" = completedThread.db.valueAt "t" "k" := by
  refine ⟨by decide +kernel, value_kept _ _ _ _ ⟨id, ?_, ?_, trivial⟩⟩
  all_goals
    rintro ⟨r, hr, -, -, hnames | ⟨r₀, hr₀, -⟩⟩
    · cases hr
      cases hnames
    · cases hr₀

/-- A patch that brings no values reads the thread, the run completes, and the patch writes. -/
def patchedAround : List EditEvent :=
  [.patch {} "t" {} "c", .proceed 0 {},
    .completeRun {} {} { runId := "r", generation := 0, status := .success,
                         values := some [("k", .bool true)] } "now" {}]

theorem patch_loses_completion :
    let w : Editing := { db := .single { Thread.fresh "t" with values := emptyObject } (Run.fresh "r" "t") }
    ((Trace.run Editing.step patchedAround w).db.valueAt "t" "k").isSome = true ∧
    ((Trace.run Editing.step (patchedAround ++ [.proceed 0 {}]) w).db.valueAt "t" "k").isNone = true := by
  decide +kernel

end Runkite
