import Runkite.Completion

/-!
# The attempt fence of one run

Any sequence of `BeginRunAttempt` and `CompleteRun` calls on one run, from any contexts and
with any driver faults. `FenceCall.after` is the durable state a sequence leaves, and
`Db.durableGeneration` the attempt generation it holds, as it is written there.

The fence reads generations back through binary64, so it only holds for generations up to
`2 ^ 53` : `attempt_fence_rounds` lowers the durable generation with two calls above that
bound, and `attempt_fence` is the whole fence for sequences below it.
-/

open Json (Members Number Text marshal)
open Transaction (Driver)

namespace Runkite

/-! ## Calls on one run -/

/-- A call of the completion store about a run that is fixed outside. -/
inductive FenceCall where
  | beginRunAttempt (ctx : Ctx) (generation : ℤ) (now : String) (driver : Driver StoreError)
  | completeRun (ctx : Ctx) (c : RunCompletion) (now : String) (driver : Driver StoreError)

namespace FenceCall

variable (d : Dialect) (runId : String)

def perform : FenceCall → Db → Db
  | beginRunAttempt ctx generation now driver, db =>
    (Runkite.beginRunAttempt ctx runId generation now driver db).2
  | completeRun ctx c now driver, db =>
    (Runkite.completeRun d ctx { c with runId := runId } now driver db).2

/-- The durable state a sequence of calls leaves. -/
def after (calls : List FenceCall) (db : Db) : Db :=
  calls.foldl (fun db call => call.perform d runId db) db

/-- The call is a `CompleteRun` whose writes become durable. -/
def applies : FenceCall → Db → Bool
  | beginRunAttempt .., _ => false
  | completeRun ctx c now driver, db =>
    Transaction.commits (completeRunInTx d ctx { c with runId := runId } now)
      CompletionResult.applied driver db

def appliedCount : List FenceCall → Db → ℕ
  | [], _ => 0
  | call :: calls, db =>
    (call.applies d runId db).toNat + appliedCount calls (call.perform d runId db)

/-- The generation of an attempt can be read back exactly. -/
def Exact : FenceCall → Prop
  | beginRunAttempt _ generation .. => |generation| ≤ 2 ^ 53
  | completeRun .. => True

end FenceCall

open FenceCall

/-- The number a document holds under a key, zero without one. -/
def storedGeneration (key : String) (raw : Text) : ℚ :=
  match raw.member key with
  | some (.number n) => n.toRat
  | _ => 0

/-- The attempt generation a run's row holds. -/
def Db.durableGeneration (db : Db) (runId : String) : ℚ :=
  match db.runs.get? runId with
  | some r => storedGeneration attemptGenerationKey r.metadata
  | none => 0

/-- A row that no attempt and no completion has written yet. -/
def Run.Unreserved (r : Run) : Prop :=
  ∀ m, decodeMetadata r.metadata = some m →
    m.lookup attemptGenerationKey = none ∧ m.lookup completionGenerationKey = none

/-! ## Reading a generation back -/

variable {g : ℤ} {m : Members Number} {raw : Text}

theorem int64OfFloat_intCast (h : |g| ≤ 2 ^ 53) : int64OfFloat g = g := by
  rw [abs_le] at h
  have hn : (if (0 : ℚ) ≤ g then ⌊(g : ℚ)⌋ else ⌈(g : ℚ)⌉) = g := by
    split_ifs <;> simp
  simp only [int64OfFloat, hn]
  rw [if_pos (by constructor <;> omega)]

/-- The map holds the attempt generation `g` : as the number a decoder leaves, or by holding
none. -/
def AttemptIs (m : Members Number) (g : ℤ) : Prop :=
  m.lookup attemptGenerationKey = none ∧ g = 0 ∨
    m.lookup attemptGenerationKey = some (.number (.float64 g))

theorem AttemptIs.metadataGeneration (h : AttemptIs m g)
    (hg : |g| ≤ 2 ^ 53) : metadataGeneration m attemptGenerationKey = g := by
  rcases h with ⟨h, rfl⟩ | h
  · simp [Runkite.metadataGeneration, h]
  · simp [Runkite.metadataGeneration, h, int64OfFloat_intCast hg]

theorem decodeMetadata_marshal (hm : m.Decoded) (hraw : marshal (.object m) = some raw) :
    ∃ m', decodeMetadata raw = some m' ∧ m'.Decoded ∧
      ∀ k, m'.lookup k = (m.lookup k).bind Json.reread := by
  obtain ⟨t, ht, -, hread⟩ := Json.unmarshalMap_marshal_iff hm.distinct
  obtain ⟨m', hm', hlook⟩ := hread fun x hx =>
    Json.isSome_reread (Json.allMembers_iff.1 hm.readable x hx)
  obtain rfl : t = raw := Option.mem_unique ht hraw
  refine ⟨m', ?_, Json.decoded_of_unmarshalMap hm', hlook⟩
  rcases t with _ | _ | v
  · simp [Json.unmarshalMap] at hm'
  · simp [Json.unmarshalMap] at hm'
  · simp [decodeMetadata, hm']

/-! ## One call -/

section Calls

variable {d : Dialect} {ctx : Ctx} {runId now : String} {driver : Driver StoreError} {db : Db}
  {r : Run} {c : RunCompletion}

variable (d ctx now driver)

/-- What `BeginRunAttempt` can do to the run's row. -/
theorem perform_begin_cases (hr : db.runs.get? runId = some r) (generation : ℤ) :
    perform d runId (.beginRunAttempt ctx generation now driver) db = db ∨
    ∃ m raw, decodeMetadata r.metadata = some m ∧ r.status.terminal = false ∧
      metadataGeneration m attemptGenerationKey ≤ generation ∧
      marshal (.object (Members.insert attemptGenerationKey (.number (.int generation)) m)) =
        some raw ∧
      (perform d runId (.beginRunAttempt ctx generation now driver) db).runs.get? runId =
        some { r with metadata := raw, status := .running, updatedAt := now } := by
  obtain heq | ⟨r', l, raw, hr', hl, hterm, hle, hraw, hdb⟩ :=
    beginRunAttempt_cases ctx now driver db runId generation
  · exact .inl heq
  · cases hr'.symm.trans hr
    refine .inr ⟨l.metadata, raw, (loaded_ok_iff.1 hl).1, hterm, hle, hraw, ?_⟩
    simp only [perform]
    rw [hdb, Db.get?_updateRuns, hr]
    simp [ownRun_self hr]

/-- What `CompleteRun` can do to the run's row. -/
theorem perform_complete_cases (hr : db.runs.get? runId = some r) (c : RunCompletion) :
    applies d runId (.completeRun ctx c now driver) db = false ∧
      perform d runId (.completeRun ctx c now driver) db = db ∨
    applies d runId (.completeRun ctx c now driver) db ∧
    ∃ m raw r', decodeMetadata r.metadata = some m ∧
      (checkCompletion m r.status (resolveCompletion m { c with runId := runId })).applied ∧
      marshal (.object (Members.insert completionGenerationKey
        (.number (.int (metadataGeneration m attemptGenerationKey))) m)) = some raw ∧
      (perform d runId (.completeRun ctx c now driver) db).runs.get? runId = some r' ∧
      r'.metadata = raw ∧ r'.status = c.status := by
  simp only [perform, applies]
  obtain ⟨hno, heq⟩ | ⟨hyes, _, l, hr', hl, happ, hcomp⟩ :=
    completeRun_cases d ctx now driver db { c with runId := runId }
  · exact .inl ⟨hno, heq⟩
  · cases hr'.symm.trans hr
    obtain ⟨hm, ht, -, -⟩ := loaded_ok_iff.1 hl
    have hgen := (checkCompletion_applied.1 happ).2.1
    obtain ⟨rawMeta, _, hraw, -, hget⟩ := hcomp.get?_runs (by simpa using hr) ht
    rw [hgen] at hraw
    exact .inr ⟨hyes, l.metadata, rawMeta, _, hm, happ, hraw, by simpa using hget, rfl, by simp⟩

end Calls

/-! ## The fence is kept -/

/-- A row whose attempt generation is `g` : stored and read as the same number. Once a
completion generation is stored, it is `g` too and the row is terminal. -/
structure Fenced (r : Run) (g : ℤ) (m : Members Number) : Prop where
  decoded : decodeMetadata r.metadata = some m
  small : |g| ≤ 2 ^ 53
  attempt : AttemptIs m g
  stored : storedGeneration attemptGenerationKey r.metadata = g
  completion : m.lookup completionGenerationKey = none ∨
    m.lookup completionGenerationKey = some (.number (.float64 g)) ∧ r.status.terminal = true

/-- The run's row exists and is fenced, or cannot be decoded at all. -/
def FenceInv (runId : String) (db : Db) : Prop :=
  ∃ r, db.runs.get? runId = some r ∧ (decodeMetadata r.metadata = none ∨ ∃ g m, Fenced r g m)

theorem attemptGenerationKey_ne : attemptGenerationKey ≠ completionGenerationKey := by decide

theorem storedGeneration_eq (hm : m.Decoded)
    (hraw : marshal (.object m) = some raw) {n : Number} {x : ℚ}
    (hn : m.lookup attemptGenerationKey = some (.number n))
    (hx : n.encode.map Binary64.Decimal.toRat = some x) :
    storedGeneration attemptGenerationKey raw = x := by
  obtain ⟨_, hdec, rfl⟩ := Option.map_eq_some_iff.1 hx
  simp [storedGeneration, Json.member_marshal hm.distinct hraw, hn, Json.traverse, hdec]

/-- A new attempt keeps the row fenced, under its own generation. -/
theorem Fenced.begin {r r' : Run} {g g' : ℤ} (h : Fenced r g m)
    (hg' : |g'| ≤ 2 ^ 53) (hterm : r.status.terminal = false)
    (hraw : marshal (.object (Members.insert attemptGenerationKey (.number (.int g')) m)) =
      some raw) (hr' : r'.metadata = raw) : ∃ m', Fenced r' g' m' := by
  have hm : (Members.insert attemptGenerationKey (.number (.int g')) m).Decoded :=
    (decoded_of_decodeMetadata h.decoded).insert (Json.readable_int hg') _
  obtain ⟨m', hdec, -, hlook⟩ := decodeMetadata_marshal hm hraw
  refine ⟨m', hr' ▸ hdec, hg', .inr ?_, ?_, .inl ?_⟩
  · simp [hlook, Json.reread_int hg']
  · rw [hr']
    exact storedGeneration_eq hm hraw (Members.lookup_insert_self ..) (by simp [Number.encode])
  · have hopen : m.lookup completionGenerationKey = none :=
      h.completion.resolve_right fun hc => by simp [hterm] at hc
    rw [hlook, Members.lookup_insert_of_ne attemptGenerationKey_ne.symm, hopen]
    rfl

/-- A completion keeps the row fenced and closes it. -/
theorem Fenced.complete {r r' : Run} (h : Fenced r g m)
    (hraw : marshal (.object (Members.insert completionGenerationKey (.number (.int g)) m)) =
      some raw) (hr' : r'.metadata = raw) (hterm : r'.status.terminal) :
    ∃ m', Fenced r' g m' ∧ m'.lookup completionGenerationKey = some (.number (.float64 g)) := by
  have hm : (Members.insert completionGenerationKey (.number (.int g)) m).Decoded :=
    (decoded_of_decodeMetadata h.decoded).insert (Json.readable_int h.small) _
  obtain ⟨m', hdec, -, hlook⟩ := decodeMetadata_marshal hm hraw
  have hclosed : m'.lookup completionGenerationKey = some (.number (.float64 g)) := by
    simp [hlook, Json.reread_int h.small]
  have hkeep := Members.lookup_insert_of_ne attemptGenerationKey_ne (.number (.int g)) m
  refine ⟨m', ⟨hr' ▸ hdec, h.small, ?_, ?_, .inr ⟨hclosed, hterm⟩⟩, hclosed⟩
  · rcases h.attempt with ⟨hnone, rfl⟩ | hsome
    · exact .inl ⟨by rw [hlook, hkeep, hnone]; rfl, rfl⟩
    · refine .inr ?_
      rw [hlook, hkeep, hsome]
      exact Json.reread_float64 (Binary64.representable_intCast h.small)
  · rw [hr']
    rcases h.attempt with ⟨hnone, rfl⟩ | hsome
    · rw [storedGeneration, Json.member_marshal hm.distinct hraw, hkeep, hnone]
      rfl
    · exact storedGeneration_eq hm hraw (by rw [hkeep, hsome])
        (by simp [Number.encode, Binary64.toRat_format_intCast h.small])

section

variable {runId : String} {db : Db} {r : Run} (hr : db.runs.get? runId = some r)
include hr

theorem durableGeneration_of_fenced (h : Fenced r g m) : db.durableGeneration runId = g := by
  simp [Db.durableGeneration, hr, h.stored]

/-- A row no attempt has written is fenced at generation zero. -/
theorem fenceInv_of_unreserved (hnew : r.Unreserved) : FenceInv runId db := by
  refine ⟨r, hr, ?_⟩
  rcases hm : decodeMetadata r.metadata with _ | m
  · exact .inl rfl
  obtain ⟨ha, hc⟩ := hnew m hm
  refine .inr ⟨0, m, hm, by norm_num, .inl ⟨ha, rfl⟩, ?_, .inl hc⟩
  have hmember : r.metadata.member attemptGenerationKey = none := by
    rcases hraw : r.metadata with _ | _ | v
    · rfl
    · rfl
    · rw [hraw] at hm
      obtain ⟨_, hm', rfl⟩ := Option.map_eq_some_iff.1 hm
      exact Json.member_eq_none_of_unmarshalMap hm' ha
  simp [storedGeneration, hmember]

end

variable {d : Dialect} {runId : String} {db : Db} {call : FenceCall}

/-- The run was completed with generation `g` and status `status`. -/
def ClosedAt (runId : String) (g : ℤ) (status : RunStatus) (db : Db) : Prop :=
  ∃ r m, db.runs.get? runId = some r ∧ Fenced r g m ∧ r.status = status ∧
    m.lookup completionGenerationKey = some (.number (.float64 g))

/-- A completion changes nothing, or closes an open run with the generation that is current. -/
theorem FenceInv.complete_cases (h : FenceInv runId db) (d : Dialect) (ctx : Ctx)
    (c : RunCompletion) (now : String) (driver : Driver StoreError) :
    applies d runId (.completeRun ctx c now driver) db = false ∧
      FenceCall.perform d runId (.completeRun ctx c now driver) db = db ∨
    applies d runId (.completeRun ctx c now driver) db ∧ c.status.terminal ∧
      (∀ r, db.runs.get? runId = some r → r.status.terminal = false) ∧
      ∃ g : ℤ, db.durableGeneration runId = g ∧ (c.takesCurrent = false → c.generation = g) ∧
        ClosedAt runId g c.status
          (FenceCall.perform d runId (.completeRun ctx c now driver) db) := by
  obtain ⟨r, hr, hrow⟩ := h
  rcases perform_complete_cases d ctx now driver hr c with
    hno | ⟨happ, m, raw, r', hm, hcheck, hraw, hget, hmeta, hst⟩
  · exact .inl hno
  rcases hrow with hnone | ⟨g, m', hf⟩
  · simp [hm] at hnone
  cases hm.symm.trans hf.decoded
  have hgen := hf.attempt.metadataGeneration hf.small
  obtain ⟨hterm, heq, -, hopen⟩ := checkCompletion_applied.1 hcheck
  rw [resolveCompletion_status] at hterm
  rw [resolveCompletion_generation, hgen] at heq
  rw [hgen] at hraw
  obtain ⟨m'', hf', hclosed⟩ := hf.complete hraw hmeta (by rw [hst]; exact hterm)
  refine .inr ⟨happ, hterm, fun _ hr' => Option.mem_unique hr hr' ▸ hopen, g,
    durableGeneration_of_fenced hr hf, fun hcur => ?_, r', m'', hget, hf', hst, hclosed⟩
  have hcur' : RunCompletion.takesCurrent { c with runId := runId } = false := hcur
  simpa [hcur'] using heq

/-- One call keeps the fence and does not lower the generation. -/
theorem FenceInv.perform (h : FenceInv runId db) (hcall : call.Exact) :
    FenceInv runId (call.perform d runId db) ∧
      db.durableGeneration runId ≤ (call.perform d runId db).durableGeneration runId := by
  rcases call with ⟨ctx, g', now, driver⟩ | ⟨ctx, c, now, driver⟩
  · obtain ⟨r, hr, hrow⟩ := h
    rcases perform_begin_cases d ctx now driver hr g' with
      heq | ⟨m, raw, hm, hterm, hle, hraw, hget⟩
    · rw [heq]
      exact ⟨⟨r, hr, hrow⟩, le_rfl⟩
    · rcases hrow with hnone | ⟨g, m', hf⟩
      · simp [hm] at hnone
      cases hm.symm.trans hf.decoded
      obtain ⟨m'', hf'⟩ : ∃ m'', Fenced
          { r with metadata := raw, status := .running, updatedAt := now } g' m'' :=
        hf.begin hcall hterm hraw rfl
      rw [hf.attempt.metadataGeneration hf.small] at hle
      refine ⟨⟨_, hget, .inr ⟨g', m'', hf'⟩⟩, ?_⟩
      rw [durableGeneration_of_fenced hr hf, durableGeneration_of_fenced hget hf']
      exact_mod_cast hle
  · rcases h.complete_cases d ctx c now driver with
      ⟨-, heq⟩ | ⟨-, -, -, g, hg, -, r', m', hget, hf', -⟩
    · rw [heq]
      exact ⟨h, le_rfl⟩
    · refine ⟨⟨r', hget, .inr ⟨g, m', hf'⟩⟩, ?_⟩
      rw [hg, durableGeneration_of_fenced hget hf']

variable {c : RunCompletion}

variable {status : RunStatus}

/-- A closed run stays as it is, whatever is called. -/
theorem ClosedAt.perform (h : ClosedAt runId g status db)
    (call : FenceCall) : call.perform d runId db = db ∧ call.applies d runId db = false := by
  obtain ⟨r, m, hr, hf, -, hclosed⟩ := h
  have hterm := (hf.completion.resolve_left (by simp [hclosed])).2
  rcases call with ⟨ctx, g', now, driver⟩ | ⟨ctx, c, now, driver⟩
  · rcases perform_begin_cases d ctx now driver hr g' with heq | ⟨m', raw, -, hopen, -⟩
    · exact ⟨heq, rfl⟩
    · simp [hopen] at hterm
  · rcases FenceInv.complete_cases ⟨r, hr, .inr ⟨g, m, hf⟩⟩ d ctx c now driver with
      ⟨hno, heq⟩ | ⟨-, -, hopen, -⟩
    · exact ⟨heq, hno⟩
    · simp [hopen r hr] at hterm

theorem ClosedAt.after (h : ClosedAt runId g status db) :
    ∀ calls, FenceCall.after d runId calls db = db ∧
      FenceCall.appliedCount d runId calls db = 0
  | [] => ⟨rfl, rfl⟩
  | call :: calls => by
    obtain ⟨heq, hno⟩ := h.perform (d := d) call
    obtain ⟨ih, hcount⟩ := ClosedAt.after h calls
    simp only [FenceCall.after, FenceCall.appliedCount, List.foldl_cons, heq, hno] at ih ⊢
    exact ⟨ih, by simp [hcount]⟩

theorem checkCompletion_closed {r : Run} (hf : Fenced r g m)
    (hclosed : m.lookup completionGenerationKey = some (.number (.float64 g))) :
    checkCompletion m r.status (resolveCompletion m c) =
      ⟨c.status = r.status && (c.takesCurrent || c.generation = g), false⟩ := by
  have hgen := hf.attempt.metadataGeneration hf.small
  have hgen' : metadataGeneration m completionGenerationKey = g := by
    simp [metadataGeneration, hclosed, int64OfFloat_intCast hf.small]
  have hterm : r.status.terminal := by
    rcases hf.completion with hnone | ⟨-, hterm⟩
    · simp [hclosed] at hnone
    · exact hterm
  simp only [checkCompletion, resolveCompletion_status, resolveCompletion_generation, hgen, hgen',
    hclosed, Option.isSome_some, if_true]
  by_cases hst : c.status = r.status
  · rw [hst, hterm]
    rcases c.takesCurrent with _ | _ <;> by_cases hg : c.generation = g <;> simp [hg]
  · have hst' : ¬ r.status = c.status := fun h => hst h.symm
    simp [hst, hst', decide_false, Bool.and_false, Bool.false_and, ite_self]

/-- What a completion of a closed run is answered. -/
theorem ClosedAt.completeRun (h : ClosedAt runId g status db)
    (ctx : Ctx) (c : RunCompletion) (now : String) (driver : Driver StoreError) :
    (∀ result, (completeRun d ctx { c with runId := runId } now driver db).1 = .ok result →
      result = ⟨c.status = status && (c.takesCurrent || c.generation = g), false⟩) ∧
    (driver.refused = none → driver.faults = [] → (db.getRun ctx runId).isSome →
      ∃ result, (completeRun d ctx { c with runId := runId } now driver db).1 = .ok result) := by
  obtain ⟨r, m, hr, hf, rfl, hclosed⟩ := h
  have hcheck := checkCompletion_closed (c := { c with runId := runId }) hf hclosed
  refine ⟨fun result hres => ?_, fun hrefused hfaults hsees => ?_⟩
  · obtain ⟨_, hrun, -⟩ := Transaction.transact_ok hres
    obtain ⟨r', l, hr', hl, hres', -⟩ := run_completeRunInTx_ok hrun
    obtain rfl : r' = r := Option.some.inj ((get?_of_getRun hr').symm.trans hr)
    obtain ⟨hm, -, -, hst⟩ := loaded_ok_iff.1 hl
    cases hm.symm.trans hf.decoded
    rw [hres', hst, hcheck]
    rfl
  · obtain ⟨r', hr'⟩ := Option.isSome_iff_exists.1 hsees
    obtain rfl : r' = r := Option.some.inj ((get?_of_getRun hr').symm.trans hr)
    have hrun : (completeRunInTx d ctx { c with runId := runId } now).run [] db =
        .ok (checkCompletion m r'.status (resolveCompletion m { c with runId := runId }), db) := by
      refine Transaction.Body.run_bind_ok.2 ⟨⟨r'.tenantId, r'.threadId, r'.status, m⟩, db,
        run_load_ok.2 ⟨r', hr', loaded_ok_iff.2 ⟨hf.decoded, rfl, rfl, rfl⟩, rfl⟩, ?_⟩
      simp [hcheck]
    refine ⟨checkCompletion m r'.status (resolveCompletion m { c with runId := runId }), ?_⟩
    simp [Runkite.completeRun, Transaction.transact, hrefused, hfaults, hrun, hcheck]

/-! ## Sequences of calls -/

theorem FenceInv.after : ∀ {calls : List FenceCall} {db : Db}, FenceInv runId db →
    (∀ call ∈ calls, call.Exact) →
      FenceInv runId (after d runId calls db) ∧
        db.durableGeneration runId ≤ (after d runId calls db).durableGeneration runId
  | [], _, h, _ => ⟨h, le_rfl⟩
  | call :: calls, db, h, hexact => by
    obtain ⟨hcall, hcalls⟩ := List.forall_mem_cons.1 hexact
    obtain ⟨hinv, hle⟩ := h.perform (d := d) hcall
    obtain ⟨hinv', hle'⟩ := FenceInv.after hinv hcalls
    exact ⟨hinv', hle.trans hle'⟩

theorem FenceInv.appliedCount_le : ∀ {calls : List FenceCall} {db : Db}, FenceInv runId db →
    (∀ call ∈ calls, call.Exact) → FenceCall.appliedCount d runId calls db ≤ 1
  | [], _, _, _ => Nat.zero_le _
  | call :: calls, db, h, hexact => by
    obtain ⟨hcall, hcalls⟩ := List.forall_mem_cons.1 hexact
    rcases happ : call.applies d runId db with _ | _
    · have := FenceInv.appliedCount_le (h.perform (d := d) hcall).1 hcalls
      simpa [FenceCall.appliedCount, happ] using this
    · rcases call with ⟨ctx, _, now, driver⟩ | ⟨ctx, c, now, driver⟩
      · simp [FenceCall.applies] at happ
      · obtain ⟨-, -, -, g, -, -, hclosed⟩ :=
          (h.complete_cases d ctx c now driver).resolve_left (by simp [happ])
        simp [FenceCall.appliedCount, happ, (hclosed.after calls).2]

theorem FenceCall.after_append (d : Dialect) (runId : String) (pre post : List FenceCall)
    (db : Db) : after d runId (pre ++ post) db = after d runId post (after d runId pre db) :=
  List.foldl_append

/-- The attempt fence, for generations that are read back exactly : the durable attempt
generation never decreases; at most one completion is applied, and only with the current
generation; the committed pair is then accepted again and every other completion refused,
and neither changes anything. -/
theorem attempt_fence (d : Dialect) (runId : String) (db : Db) (r : Run)
    (hr : db.runs.get? runId = some r) (hnew : r.Unreserved) (calls : List FenceCall)
    (hexact : ∀ call ∈ calls, call.Exact) : (∀ pre post, calls = pre ++ post →
      (FenceCall.after d runId pre db).durableGeneration runId ≤
        (FenceCall.after d runId calls db).durableGeneration runId) ∧
    FenceCall.appliedCount d runId calls db ≤ 1 ∧
    ∀ pre ctx c now driver post, calls = pre ++ .completeRun ctx c now driver :: post →
      FenceCall.applies d runId (.completeRun ctx c now driver)
        (FenceCall.after d runId pre db) = true →
      ∃ g : ℤ, (FenceCall.after d runId pre db).durableGeneration runId = g ∧
        (c.takesCurrent = false → c.generation = g) ∧
        ∀ mid ctx' c' now' driver' rest,
          post = mid ++ .completeRun ctx' c' now' driver' :: rest →
          let later := FenceCall.after d runId (pre ++ .completeRun ctx c now driver :: mid) db
          let answer := completeRun d ctx' { c' with runId := runId } now' driver' later
          answer.2 = later ∧
          (∀ result, answer.1 = .ok result →
            result = ⟨c'.status = c.status && (c'.takesCurrent || c'.generation = g), false⟩) ∧
          (driver'.refused = none → driver'.faults = [] → (later.getRun ctx' runId).isSome →
            ∃ result, answer.1 = .ok result) := by
  have hinv := fenceInv_of_unreserved hr hnew
  refine ⟨?_, hinv.appliedCount_le hexact, ?_⟩
  · rintro pre post rfl
    obtain ⟨hpre, hpost⟩ := List.forall_mem_append.1 hexact
    rw [FenceCall.after_append]
    exact ((hinv.after hpre).1.after hpost).2
  · rintro pre ctx c now driver post rfl happ
    obtain ⟨hpre, -⟩ := List.forall_mem_append.1 hexact
    obtain ⟨-, -, -, g, hgen, hcur, hclosed⟩ :=
      ((hinv.after (d := d) hpre).1.complete_cases d ctx c now driver).resolve_left (by simp [happ])
    refine ⟨g, hgen, hcur, ?_⟩
    rintro mid ctx' c' now' driver' rest rfl
    have hlater : ClosedAt runId g c.status
        (FenceCall.after d runId (pre ++ .completeRun ctx c now driver :: mid) db) := by
      rw [FenceCall.after_append]
      exact (hclosed.after mid).1.symm ▸ hclosed
    exact ⟨(hlater.perform (d := d) (.completeRun ctx' c' now' driver')).1,
      hlater.completeRun ctx' c' now' driver'⟩

theorem unreserved_fresh (runId threadId : String) : (Run.fresh runId threadId).Unreserved := by
  intro m hm
  cases hm
  exact ⟨rfl, rfl⟩

/-- An attempt, its completion, a repeated completion and a cancellation : one is applied. -/
theorem attempt_fence_completed :
    let db := Db.single (Thread.fresh "t") (Run.fresh "r" "t")
    let done : RunCompletion := { runId := "r", generation := 1, status := .success }
    let cancel : RunCompletion :=
      { runId := "r", generation := 0, status := .interrupted, cancelCurrentAttempt := true }
    let calls := [FenceCall.beginRunAttempt {} 1 "" (Driver.sound StoreError),
      .completeRun {} done "" (Driver.sound StoreError),
      .completeRun {} done "" (Driver.sound StoreError),
      .completeRun {} cancel "" (Driver.sound StoreError)]
    FenceCall.appliedCount {} "r" calls db = 1 ∧ FenceCall.appliedCount {} "r" calls db ≤ 1 := by
  intro db done cancel calls
  refine ⟨by decide +kernel,
    (attempt_fence {} "r" db (Run.fresh "r" "t") rfl (unreserved_fresh _ _) calls ?_).2.1⟩
  simp [calls, FenceCall.Exact]

/-- Two attempts above `2 ^ 53` : the first is stored exactly but read back one lower, so
the second is admitted below it. -/
theorem attempt_fence_rounds :
    let db := Db.single (Thread.fresh "t") (Run.fresh "r" "t")
    let first := FenceCall.beginRunAttempt {} 9007199254740993 "" (Driver.sound StoreError)
    let second := FenceCall.beginRunAttempt {} 9007199254740992 "" (Driver.sound StoreError)
    (FenceCall.after {} "r" [first, second] db).durableGeneration "r" <
      (FenceCall.after {} "r" [first] db).durableGeneration "r" := by decide +kernel

end Runkite
