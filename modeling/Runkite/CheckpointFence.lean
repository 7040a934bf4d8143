import Runkite.Admission
import Runkite.AttemptFence
import Runkite.OpaqueCheckpoints
import Runkite.WriteLock

/-!
# Run-bound checkpoint writes

A runner writes and deletes opaque checkpoints with a binding : the run it was given, the generation
of the attempt and the thread. The store checks the binding against the row of the run in the
transaction of the write, under the lock that `BeginRunAttempt` and `CompleteRun` take.
The check reads the generation through binary64. In every interleaving of their statements a bound
write commits only while its binding is the run's own, as long as a float64 holds the generation
(`bound_mutation_fenced`); beyond `2 ^ 53` one of another generation commits
(`neighbouring_generation_commits`).
-/

namespace Runkite

open Transaction

/-! ## The check -/

structure RunCheckpointBinding where
  runId : String
  generation : ℤ
  threadId : String

inductive CheckpointError where
  /-- `ErrRunCheckpointFence`. -/
  | fence (reasonCode : String)
  | store (e : StoreError)
deriving DecidableEq

def checkRunCheckpointBinding (l : Loaded) (binding : RunCheckpointBinding) :
    Except CheckpointError Unit :=
  if l.status.terminal then .error (.fence "run_not_inflight")
  else if l.threadId ≠ binding.threadId then .error (.fence "run_thread_mismatch")
  else if metadataGeneration l.metadata attemptGenerationKey ≠ binding.generation then
    .error (.fence "run_generation_mismatch")
  else .ok ()

/-- The error of `load` : a run that is not there is not in flight. -/
def CheckpointError.ofLoad : StoreError → CheckpointError
  | .noRows => .fence "run_not_inflight"
  | e => .store e

/-! ## The transactions -/

/-- The database with its opaque checkpoints. -/
abbrev CheckpointDb := Db × OpaqueTable

def lockRunCheckpoint (ctx : Ctx) (binding : RunCheckpointBinding) :
    Body CheckpointDb CheckpointError Unit := do
  let l ← (load ctx binding.runId).first .ofLoad
  match checkRunCheckpointBinding l binding with
  | .error e => raise e
  | .ok () =>
    let _ ← (lockThread ctx l.threadId).first .store

/-- `WithRunCheckpoint`, up to its commit. -/
def withRunCheckpoint {α : Type} (ctx : Ctx) (binding : RunCheckpointBinding)
    (mutate : Body CheckpointDb CheckpointError α) : Body CheckpointDb CheckpointError α := do
  lockRunCheckpoint ctx binding
  mutate

/-- The statement of `putOpaqueCheckpoint`. -/
def putOpaqueCheckpoint (ctx : Ctx) (threadId checkpointId : String) (data : List UInt8)
    (framework : String) (ifMatch : Option ℤ) (now : String) :
    Body CheckpointDb CheckpointError ℤ :=
  .statement (fun s =>
    match s.2.put ctx threadId checkpointId data framework ifMatch now with
    | .ok (version, t) => .ok (version, (s.1, t))
    | .error e => .error (.store e)) .done

def putBoundOpaqueCheckpoint (ctx : Ctx) (binding : RunCheckpointBinding) (checkpointId : String)
    (data : List UInt8) (framework : String) (ifMatch : Option ℤ) (now : String) :
    Body CheckpointDb CheckpointError ℤ :=
  withRunCheckpoint ctx binding
    (putOpaqueCheckpoint ctx binding.threadId checkpointId data framework ifMatch now)

/-- The rows `WHERE tenant_id = ? AND thread_id = ? AND checkpoint_id = ?`. -/
def ownCheckpoint (tenantId threadId checkpointId : String) (c : OpaqueCheckpoint) : Bool :=
  c.tenantId = tenantId && c.threadId = threadId && c.checkpointId = checkpointId

def deleteBoundOpaqueCheckpoint (ctx : Ctx) (binding : RunCheckpointBinding)
    (checkpointId : String) : Body CheckpointDb CheckpointError Unit := do
  lockRunCheckpoint ctx binding
  let _ ← select fun s =>
    match s.2.select (ownCheckpoint ctx.tenant binding.threadId checkpointId) with
    | some c => .ok c.checkpointId
    | none => .error (.store (.notFound "opaque_checkpoint" checkpointId))
  exec fun s => (s.1, s.2.delete (ownCheckpoint ctx.tenant binding.threadId checkpointId))

/-! ## The calls -/

/-- A bound write. -/
inductive BoundMutation where
  | put (checkpointId : String) (data : List UInt8) (framework : String) (ifMatch : Option ℤ)
      (now : String)
  | delete (checkpointId : String)

/-- The transactions that share the lock; `κ` names those that are neither a bound write nor an
attempt or a completion. -/
inductive CheckpointCall (κ : Type) where
  | bound (ctx : Ctx) (binding : RunCheckpointBinding) (mutation : BoundMutation)
  | beginRunAttempt (ctx : Ctx) (runId : String) (generation : ℤ) (now : String)
  | completeRun (d : Dialect) (ctx : Ctx) (c : RunCompletion) (now : String)
  | other (k : κ)

/-- What a transaction returns : whether it commits, and the version of a put. -/
structure CallResult where
  keep : Bool
  version : Option ℤ := none

variable {κ : Type}

def CheckpointCall.body (others : κ → Body CheckpointDb CheckpointError CallResult) :
    CheckpointCall κ → Body CheckpointDb CheckpointError CallResult
  | .bound ctx binding (.put checkpointId data framework ifMatch now) => do
    let version ← putBoundOpaqueCheckpoint ctx binding checkpointId data framework ifMatch now
    return ⟨true, some version⟩
  | .bound ctx binding (.delete checkpointId) => do
    deleteBoundOpaqueCheckpoint ctx binding checkpointId
    return ⟨true, none⟩
  | .beginRunAttempt ctx runId generation now => do
    let began ← (beginRunAttemptBody ctx runId generation now).first .store
    return ⟨began, none⟩
  | .completeRun d ctx c now => do
    let result ← (completeRunInTx d ctx c now).first .store
    return ⟨result.applied, none⟩
  | .other k => others k

/-! ## The fence -/

/-- The run of the binding exists, is not terminal, belongs to the thread of the binding, and its
durable attempt generation is the one of the binding. -/
def BindingHolds (ctx : Ctx) (binding : RunCheckpointBinding) (db : Db) : Prop :=
  ∃ r, db.getRun ctx binding.runId = some r ∧ r.status.terminal = false ∧
    r.threadId = binding.threadId ∧ db.durableGeneration binding.runId = binding.generation

/-- The row of the run holds no attempt generation, or one that a float64 holds exactly. -/
def Db.exactGeneration (db : Db) (runId : String) : Bool :=
  ((db.runs.get? runId).bind fun r => r.metadata.member attemptGenerationKey).all fun
    | .number n => n.toRat.den = 1 && n.toRat.num.natAbs ≤ 2 ^ 53
    | _ => false

/-- What is read of an exact generation is what is stored. -/
theorem durableGeneration_eq {db : Db} {runId : String} {r : Run} {m : Json.Members Json.Number}
    (hr : db.runs.get? runId = some r) (hm : decodeMetadata r.metadata = some m)
    (h : db.exactGeneration runId) :
    db.durableGeneration runId = metadataGeneration m attemptGenerationKey := by
  simp only [Db.exactGeneration, hr, Option.bind_some] at h
  simp only [Db.durableGeneration, hr, storedGeneration, metadataGeneration,
    lookup_of_decodeMetadata hm]
  cases hmember : r.metadata.member attemptGenerationKey with
  | none => simp
  | some v =>
    rw [hmember] at h
    cases v with
    | number n =>
      simp only [Option.all_some, Bool.and_eq_true, decide_eq_true_eq] at h
      obtain ⟨g, hg⟩ : ∃ g : ℤ, n.toRat = g := ⟨_, ((Rat.den_eq_one_iff _).1 h.1).symm⟩
      have hsmall : |g| ≤ 2 ^ 53 := by
        rw [hg, Rat.num_intCast] at h
        rw [Int.abs_eq_natAbs]
        exact_mod_cast h.2
      simp [Json.traverse, Json.decodeFloat, hg, Binary64.ofRat_intCast hsmall,
        int64OfFloat_intCast hsmall]
    | _ => simp at h

variable {binding : RunCheckpointBinding} {s s' : CheckpointDb} {ctx : Ctx}

/-- A transaction that passes `LockRunCheckpoint` found the binding to be the run's own, if it read
the generation exactly. -/
theorem run_lockRunCheckpoint_ok
    {u : Unit} (h : (lockRunCheckpoint ctx binding).run [] s = .ok (u, s')) :
    (s.1.exactGeneration binding.runId → BindingHolds ctx binding s.1) ∧ s' = s := by
  obtain ⟨_, t⟩ := s
  simp only [lockRunCheckpoint, Body.run_bind_ok, Body.run_first_ok, run_load_ok] at h
  obtain ⟨l, _, ⟨_, ⟨r, hr, hl, rfl⟩, rfl⟩, hcheck⟩ := h
  cases hbinding : checkRunCheckpointBinding l binding with
  | error =>
    rw [hbinding] at hcheck
    exact absurd hcheck Body.run_raise_ok
  | ok =>
    rw [hbinding] at hcheck
    simp only [lockThread, Body.run_bind_ok, Body.run_first_ok, Body.run_select_ok,
      Body.run_pure_ok] at hcheck
    obtain ⟨_, _, ⟨_, ⟨-, rfl⟩, rfl⟩, -, rfl⟩ := hcheck
    unfold checkRunCheckpointBinding at hbinding
    split_ifs at hbinding with hterminal hthread hgeneration
    rw [Bool.not_eq_true] at hterminal
    rw [not_ne_iff] at hthread hgeneration
    obtain ⟨hmeta, -, hthreadId, hstatus⟩ := loaded_ok_iff.1 hl
    refine ⟨fun hexact => ⟨r, hr, hstatus ▸ hterminal, hthreadId ▸ hthread, ?_⟩, rfl⟩
    rw [durableGeneration_eq (get?_of_getRun hr) hmeta hexact, hgeneration]

variable {mutation : BoundMutation}

/-- A bound write that succeeds found its binding to be the run's own, and only changed the opaque
checkpoints. -/
theorem run_bound_ok {others : κ → Body CheckpointDb CheckpointError CallResult}  {res : CallResult}
    (h : ((CheckpointCall.bound ctx binding mutation).body others).run [] s = .ok (res, s')) :
    (s.1.exactGeneration binding.runId → BindingHolds ctx binding s.1) ∧ s'.1 = s.1 := by
  cases mutation with
  | put =>
    simp only [CheckpointCall.body, putBoundOpaqueCheckpoint, withRunCheckpoint, Body.run_bind_ok,
      Body.run_pure_ok] at h
    obtain ⟨_, s₁, ⟨u, s₂, hlock, hput⟩, -, rfl⟩ := h
    obtain ⟨hbinding, rfl⟩ := run_lockRunCheckpoint_ok hlock
    refine ⟨hbinding, ?_⟩
    simp only [putOpaqueCheckpoint, Body.run, List.head?_nil, Option.join_none] at hput
    split at hput
    · cases hput
    · rename_i hstatement
      split at hstatement <;> cases hstatement
      rw [← (Prod.mk.inj (Except.ok.inj hput)).2]
  | delete =>
    simp only [CheckpointCall.body, deleteBoundOpaqueCheckpoint, Body.run_bind_ok, Body.run_pure_ok,
      Body.run_select_ok, Body.run_exec_ok] at h
    obtain ⟨u, _, ⟨_, _, hlock, _, _, ⟨-, rfl⟩, rfl⟩, -, rfl⟩ := h
    obtain ⟨hbinding, rfl⟩ := run_lockRunCheckpoint_ok hlock
    exact ⟨hbinding, rfl⟩

/-! ## Interleavings -/

variable (others : κ → Body CheckpointDb CheckpointError CallResult)

/-- A step of any of the transactions. -/
abbrev checkpointStep :=
  WriteLock.step (CheckpointCall.body others) CallResult.keep

/-- While a bound write holds the lock, a float64 holds the attempt generation of its run. -/
def exactStep (_ : WriteLock.Event (CheckpointCall κ) CheckpointError)
    (st : WriteLock.State (CheckpointCall κ) CheckpointDb CheckpointError CallResult) : Bool :=
  match st.holder.map WriteLock.Holder.caller with
  | some (.bound _ binding _) => st.committed.1.exactGeneration binding.runId
  | _ => true

/-- What a step of the transaction of a bound write may do : commit while the binding is the run's
own, before the step and after it, or change nothing. An error is answered without a change, unless
it says that a commit was not acknowledged. -/
structure FencedStep (ctx : Ctx) (binding : RunCheckpointBinding)
    (ev : WriteLock.Event (CheckpointCall κ) CheckpointError)
    (st : WriteLock.State (CheckpointCall κ) CheckpointDb CheckpointError CallResult) : Prop where
  fenced : WriteLock.commits CallResult.keep ev st = true →
    BindingHolds ctx binding st.committed.1 ∧
      BindingHolds ctx binding (checkpointStep others ev st).committed.1
  unchanged : WriteLock.commits CallResult.keep ev st = false →
    (checkpointStep others ev st).committed = st.committed
  rejected : ∀ call e, WriteLock.answer CallResult.keep ev st = some (call, .error e) →
    ev ≠ .finish (.unacknowledged e) → (checkpointStep others ev st).committed = st.committed

theorem fencedStep_of_faithful {ev : WriteLock.Event (CheckpointCall κ) CheckpointError}
    {st : WriteLock.State (CheckpointCall κ) CheckpointDb CheckpointError CallResult}
    (hst : WriteLock.Faithful (CheckpointCall.body others) st) (hexact : exactStep ev st)
    (hcaller : st.holder.map WriteLock.Holder.caller = some (.bound ctx binding mutation)) :
    FencedStep others ctx binding ev st where
  fenced hcommits := by
    obtain ⟨_, _, hholder, -, hrun⟩ := hst.run_of_commits hcommits
    simp only [exactStep, hcaller] at hexact
    rw [hholder, Option.map_some, Option.some.injEq] at hcaller
    rw [hcaller] at hrun
    obtain ⟨hbinding, hdb⟩ := run_bound_ok hrun
    exact ⟨hbinding hexact, hdb ▸ hbinding hexact⟩
  unchanged hcommits := WriteLock.committed_of_not_commits hcommits
  rejected _ _ hanswer hev :=
    WriteLock.committed_of_not_commits ((WriteLock.not_commits_of_answer hanswer).resolve_right hev)

/-- In every interleaving in which the generations of the runs that bound writes are for are read
exactly, a bound write commits only while its binding is the run's own. -/
theorem bound_mutation_fenced (s : CheckpointDb)
    (evs : List (WriteLock.Event (CheckpointCall κ) CheckpointError))
    (h : Trace.Every (checkpointStep others) (fun ev st => exactStep ev st = true) evs ⟨s, none⟩) :
    Trace.Every (checkpointStep others) (fun ev st => ∀ ctx binding mutation,
      st.holder.map WriteLock.Holder.caller = some (.bound ctx binding mutation) →
        FencedStep others ctx binding ev st) evs ⟨s, none⟩ := by
  have hinit : WriteLock.Faithful (CheckpointCall.body others) ⟨s, none⟩ := fun _ h => nomatch h
  refine Trace.every_of_invariant (fun ev st _ hst => hst.step ev)
    (fun ev st hexact hst ctx binding mutation hcaller => ?_) h hinit
  exact fencedStep_of_faithful others hst hexact hcaller

/-- An attempt begins, and a put that is bound to the attempt `bound` comes to its commit. -/
def boundPut (generation bound : ℤ) : List (WriteLock.Event (CheckpointCall Empty) CheckpointError) :=
  [.begin (.beginRunAttempt {} "r" generation ""), .statement none, .statement none, .finish .done,
    .begin (.bound {} ⟨"r", bound, "t"⟩ (.put "c" [] "" none "")), .statement none, .statement none,
    .statement none]

def boundPutStart : CheckpointDb := (Db.single (Thread.fresh "t") (Run.fresh "r" "t"), .empty)

theorem bound_mutation_fenced_put :
    Trace.Every (checkpointStep Empty.elim) (fun ev st => ∀ ctx binding mutation,
      st.holder.map WriteLock.Holder.caller = some (.bound ctx binding mutation) →
        FencedStep Empty.elim ctx binding ev st) (boundPut 1 1 ++ [.finish .done])
        ⟨boundPutStart, none⟩ ∧
      (Trace.run (checkpointStep Empty.elim) (boundPut 1 1 ++ [.finish .done])
        ⟨boundPutStart, none⟩).committed.2.rows.length = 1 :=
  ⟨bound_mutation_fenced _ _ _ (by decide +kernel), by decide +kernel⟩

/-- The durable generation is read one lower, and a put that is bound to the lower one commits. -/
theorem neighbouring_generation_commits :
    let st := Trace.run (checkpointStep Empty.elim) (boundPut 9007199254740993 9007199254740992)
      ⟨boundPutStart, none⟩
    (checkpointStep Empty.elim (.finish .done) st).committed.2.rows.length = 1 ∧
      st.committed.1.durableGeneration "r" = 9007199254740993 ∧
      ¬ FencedStep Empty.elim {} ⟨"r", 9007199254740992, "t"⟩ (.finish .done) st := by
  refine ⟨by decide +kernel, by decide +kernel, fun h => ?_⟩
  obtain ⟨⟨_, -, -, -, hgeneration⟩, -⟩ := h.fenced (by decide +kernel)
  revert hgeneration
  decide +kernel

end Runkite
