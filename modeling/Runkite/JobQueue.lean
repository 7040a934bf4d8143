import Runkite.InProcessQueue

/-!
# The interface of the job queues

The calls of `JobQueue` and what they return, for the in-process queue (`InProcess.serve`) and for
the Redis queue (`Redis.serve`), whose assignments pass through JSON (`AssignmentCodec`). The two
are compared on the calls for which the channels of the in-process queue have room, no cancel marker
has expired and no lease is exactly at the cutoff (`QueueOp.comparable`).
-/

namespace Runkite

/-! ## Assignments as text -/

namespace Payload

/-- The members that the scripts do not look at. -/
def others (p : Payload) : List String :=
  p.filterMap fun
    | .other text => some text
    | _ => none

@[simp] theorem runnerKind_appendGeneration (p : Payload) (g : ℤ) :
    (p.appendGeneration g).runnerKind = p.runnerKind := by simp [appendGeneration, runnerKind]

@[simp] theorem others_appendGeneration (p : Payload) (g : ℤ) :
    (p.appendGeneration g).others = p.others := by simp [appendGeneration, others]

theorem others_append (p q : Payload) : others (p ++ q) = others p ++ others q :=
  List.filterMap_append

theorem others_other (l : List String) : others (l.map .other) = l := by
  simp [others, List.filterMap_map]

/-- A stored assignment that a reclaim can read. -/
structure Stored (p : Payload) : Prop where
  runId : ∃ runId, p.runId = some runId ∧ runId ≠ ""
  runnerKind : ∃ kind, p.runnerKind = some kind
  generation : 0 ≤ p.generation

end Payload

namespace RunAssignment

theorem runnerKind_marshal (job : RunAssignment) :
    job.marshal.runnerKind = some job.runnerKind := by
  rw [Payload.runnerKind, findSome?_marshal job fun _ => rfl]
  split_ifs <;> rfl

theorem others_marshal (job : RunAssignment) :
    job.marshal.others = job.first ++ job.second ++ job.third := by
  have hgen : Payload.others (if job.generation = 0 then [] else [.generation job.generation]) =
      [] := by
    split_ifs <;> rfl
  have hfirst : Payload.others (.runId job.runId :: job.first.map .other) = job.first :=
    Payload.others_other job.first
  have hsecond : Payload.others (.runnerKind job.runnerKind :: job.second.map .other) =
      job.second := Payload.others_other job.second
  simp only [marshal, Payload.others_append, hfirst, hsecond, hgen, Payload.others_other,
    List.append_nil]

theorem generation_of_marshal (job : RunAssignment) : job.marshal.generation = job.generation := by
  by_cases hzero : job.generation = 0
  · rw [Payload.generation, List.findSome?_eq_none_iff.2, hzero]
    · rfl
    · intro f hf
      simp only [marshal, hzero, if_true, List.append_nil, List.mem_reverse, List.mem_cons,
        List.mem_append, List.mem_map] at hf
      rcases hf with ((rfl | ⟨_, _, rfl⟩) | rfl | ⟨_, _, rfl⟩) | ⟨_, _, rfl⟩ <;> rfl
  · exact job.generation_marshal hzero

end RunAssignment

/-- How `encoding/json` prints and reads the other members of an assignment. -/
structure AssignmentCodec where
  /-- The members before the runner kind, before the generation, and after it. -/
  print : String → String → String → List String × List String × List String
  read : List String → String × String × String
  read_print : ∀ graphId tenantId fields,
    read ((print graphId tenantId fields).1 ++ (print graphId tenantId fields).2.1 ++
      (print graphId tenantId fields).2.2) = (graphId, tenantId, fields)

namespace AssignmentCodec

variable (codec : AssignmentCodec)

def assignment (job : Job) : RunAssignment where
  runId := job.runId
  runnerKind := job.runnerKind
  generation := job.generation
  first := (codec.print job.graphId job.tenantId job.fields).1
  second := (codec.print job.graphId job.tenantId job.fields).2.1
  third := (codec.print job.graphId job.tenantId job.fields).2.2

/-- `json.Unmarshal`, which takes the last of duplicate members. -/
def job (p : Payload) : Job where
  runId := p.runId.getD ""
  runnerKind := p.runnerKind.getD ""
  generation := p.generation
  graphId := (codec.read p.others).1
  tenantId := (codec.read p.others).2.1
  fields := (codec.read p.others).2.2

@[simp] theorem job_marshal (job : Job) : codec.job (codec.assignment job).marshal = job := by
  simp only [AssignmentCodec.job, RunAssignment.runId_marshal, RunAssignment.runnerKind_marshal,
    RunAssignment.generation_of_marshal, RunAssignment.others_marshal, assignment, codec.read_print,
    Option.getD_some]

@[simp] theorem job_appendGeneration (p : Payload) (g : ℤ) :
    codec.job (p.appendGeneration g) = { codec.job p with generation := g } := by
  simp [AssignmentCodec.job]

def parseDeadEntry (entry : String × ℤ × Payload) : Option PoisonPill :=
  if entry.1 = "" || entry.2.1 ≤ 0 || entry.2.2.runId ≠ some entry.1 then none
  else some ⟨entry.1, entry.2.1, (codec.job entry.2.2).graphId, (codec.job entry.2.2).tenantId⟩

end AssignmentCodec

/-! ## Calls and their answers -/

/-- A call of the interface of a job queue. A call of `Dequeue` receives at most `rounds` times
before its time is over; `order` is the order in which the in-process queue ranges over its
leases. -/
inductive QueueOp where
  | enqueue (job : Job)
  | dequeue (kind : String) (rounds : ℕ)
  | ack (runId : String) (generation : ℤ)
  | renew (runId : String) (generation : ℤ)
  | nack (runId : String) (generation : ℤ)
  | cancel (runId : String)
  | reclaimStale (maxAge maxRetries : ℤ) (order : MapOrder)
  | lookupInflight (runId : String)

inductive QueueReply where
  | done
  | failed
  | accepted (accepted : Bool)
  | job (job : Option Job)
  | reclaimed (reclaimed : ℕ) (dead : List PoisonPill)
deriving DecidableEq

/-- The same answer, whatever the order of the pills. -/
def QueueReply.Alike : QueueReply → QueueReply → Prop
  | .reclaimed n dead, .reclaimed n' dead' => n = n' ∧ dead.Perm dead'
  | r, r' => r = r'

theorem QueueReply.Alike.refl : ∀ r : QueueReply, r.Alike r
  | .done | .failed | .accepted _ | .job _ => rfl
  | .reclaimed _ dead => ⟨rfl, .refl dead⟩

namespace InProcess

/-- A call to the in-process queue, with a context that is not canceled. -/
def serve (now : ℤ) (q : InProcess) : QueueOp → QueueReply × InProcess
  | .enqueue job => (q.enqueue job false).map (fun e => if e.isSome then .failed else .done) id
  | .dequeue kind rounds => (dequeue kind now rounds q).map .job id
  | .ack runId generation => (q.ack runId generation).map .accepted id
  | .renew runId generation => (q.renew runId generation now).map .accepted id
  | .nack runId generation =>
    (q.nack none runId generation).map (fun e => if e.isSome then .failed else .done) id
  | .cancel runId => (.done, q.cancel runId)
  | .reclaimStale maxAge maxRetries order =>
    (q.reclaimStale none (now - maxAge) maxRetries order).map
      (fun r => if r.err.isSome then .failed else .reclaimed r.reclaimed r.dead) id
  | .lookupInflight runId => (.job ((q.inflight.lookup runId).map InflightEntry.job), q)

end InProcess

namespace Redis

/-- The loop of `Dequeue`, for a call that is alone. -/
def dequeue (kind : String) (now : ℤ) : ℕ → Redis → Option Payload × Redis
  | 0, s => (none, s)
  | rounds + 1, s =>
    match s.blmove kind with
    | (none, s) => (none, s)
    | (some p, s) =>
      match s.promote p now with
      | ((true, _), s) => (some p, s)
      | ((false, _), s) => dequeue kind now rounds s

/-- The loop of `reclaimStaleScript` with what it did about each id. -/
def reclaimOutcomes (now maxRetries : ℤ) : Redis → List String → List (String × Reclaimed) × Redis
  | s, [] => ([], s)
  | s, runId :: runIds =>
    match reclaimOne now maxRetries s runId with
    | (.failed message, s) => ([(runId, .failed message)], s)
    | (outcome, s) => (reclaimOutcomes now maxRetries s runIds).map ((runId, outcome) :: ·) id

/-- The entry of `dead`, if the outcome is one. -/
def deadEntry : String × Reclaimed → Option (String × ℤ × Payload)
  | (runId, .dead generation p) => some (runId, generation, p)
  | _ => none

def hasFailed : String × Reclaimed → Bool
  | (_, .failed _) => true
  | _ => false

/-- What `ReclaimStale` makes of the reply of the script. -/
def reclaimReply (codec : AssignmentCodec) (outcomes : List (String × Reclaimed)) : QueueReply :=
  if outcomes.any hasFailed then .failed
  else
    match (outcomes.filterMap deadEntry).mapM codec.parseDeadEntry with
    | some dead => .reclaimed (outcomes.countP fun o => o.2 = .requeued) dead
    | none => .failed

/-- A call to the Redis queue, alone and without a failure of Redis. -/
def serve (codec : AssignmentCodec) (now : ℤ) (s : Redis) : QueueOp → QueueReply × Redis
  | .enqueue job =>
    match s.checkCanceled job.runId now with
    | (true, s) => (.done, s)
    | (false, s) => (.done, s.enqueue (codec.assignment job))
  | .dequeue kind rounds => (dequeue kind now rounds s).map (fun p => .job (p.map codec.job)) id
  | .ack runId generation => (s.ack runId generation).map .accepted id
  | .renew runId generation => (s.renew runId generation now).map .accepted id
  | .nack runId generation =>
    (s.nack runId generation now).map (fun ok => if ok then .done else .failed) id
  | .cancel runId => (.done, s.cancel runId now)
  | .reclaimStale maxAge maxRetries _ =>
    let s := s.drainPending now
    (reclaimReply codec (reclaimOutcomes now maxRetries s (s.staleIds (now - maxAge))).1,
      (s.reclaimStale (now - maxAge) now maxRetries).2)
  | .lookupInflight runId => (.job ((s.data.lookup runId).map codec.job), s)

end Redis

/-! ## Calls that are compared -/

namespace InProcess

def dequeuedAt (q : InProcess) (runId : String) : ℤ :=
  ((q.inflight.lookup runId).map InflightEntry.dequeuedAt).getD 0

/-- The lease of the one run is older than that of the other, or as old with a smaller id. -/
def sooner (q : InProcess) (a b : String) : Prop :=
  q.dequeuedAt a < q.dequeuedAt b ∨ q.dequeuedAt a = q.dequeuedAt b ∧ a ≤ b

instance (q : InProcess) : DecidableRel q.sooner := fun _ _ =>
  inferInstanceAs (Decidable (_ ∨ _))

/-- The stale leases in the order in which a reclaim visits them. -/
def staleVisited (q : InProcess) (cutoff : ℤ) (order : MapOrder) : List String :=
  (order.1 q.inflight.keys).filter fun runId => (q.stale cutoff runId).isSome

/-- How many jobs a reclaim of these leases sends to the channel of the kind. -/
def sentTo (q : InProcess) (cutoff maxRetries : ℤ) (runIds : List String) (kind : String) : ℕ :=
  (runIds.filterMap (q.requeued? cutoff maxRetries)).countP fun job => job.runnerKind = kind

end InProcess

/-- The channels have room for the jobs that the call sends to them. -/
def QueueOp.hasRoom (now : ℤ) (q : InProcess) : QueueOp → Bool
  | .enqueue job => job.runId ∈ q.canceled || !q.full job.runnerKind
  | .nack runId generation =>
    (q.matching runId generation).all fun entry => !q.full entry.job.runnerKind
  | .reclaimStale maxAge maxRetries _ =>
    (q.inflight.keys.filterMap (q.requeued? (now - maxAge) maxRetries)).all fun job =>
      (q.ready.countP fun job' => job'.runnerKind = job.runnerKind) +
        q.sentTo (now - maxAge) maxRetries q.inflight.keys job.runnerKind ≤ channelCapacity
  | _ => true

/-- Lua prints the generation with all its digits. -/
def luaExact (generation : ℤ) : Bool := -10 ^ 14 < generation && generation < 10 ^ 14

/-- What is left out of the comparison : a channel is full, a cancel marker has expired, a lease is
exactly at the cutoff. -/
def QueueOp.comparable (now : ℤ) (q : InProcess) (s : Redis) (op : QueueOp) : Bool :=
  op.hasRoom now q &&
  s.canceled.entries.all (fun e => now - canceledMemberTTL < e.2) &&
  match op with
  | .reclaimStale maxAge _ _ => q.inflight.entries.all fun e => e.2.dequeuedAt ≠ now - maxAge
  | _ => true

/-- A reclaim visits the stale leases oldest first, as the sorted set does. After one that does not,
a `Dequeue` of the two queues may return different runs. -/
def QueueOp.ordered (now : ℤ) (q : InProcess) : QueueOp → Bool
  | .reclaimStale maxAge _ order => (q.staleVisited (now - maxAge) order).Pairwise q.sooner
  | _ => true

/-- The run ids are not empty, and the generations not negative and such that Lua prints them. -/
def QueueOp.regular (q : InProcess) : QueueOp → Bool
  | .enqueue job => job.runId ≠ "" && 0 ≤ job.generation && luaExact job.generation
  | .ack _ generation | .renew _ generation | .nack _ generation => luaExact generation
  | .reclaimStale _ _ _ => q.inflight.entries.all fun e => luaExact (e.2.job.generation + 1)
  | _ => true

/-! ## Reclaim in any order -/

namespace InProcess

variable {q : InProcess} {now : ℤ}

theorem enqueueReadyLocked_cases {job : Job} (hnot : job.runId ∉ q.canceled) :
    (q.enqueueReadyLocked none job = .error .readyQueueFull ∧
      channelCapacity ≤ q.ready.countP fun job' => job'.runnerKind = job.runnerKind) ∨
    (q.enqueueReadyLocked none job = .ok (q.send job) ∧
      (q.ready.countP fun job' => job'.runnerKind = job.runnerKind) < channelCapacity) := by
  have hctx : ¬ Context.canceled none := by decide
  unfold enqueueReadyLocked
  rw [if_neg hctx, if_neg hnot]
  split_ifs with hfull
  · exact .inl ⟨rfl, of_decide_eq_true hfull⟩
  · exact .inr ⟨rfl, not_le.1 fun hle => hfull (decide_eq_true hle)⟩

/-- A reclaim passes over the leases that are not stale. -/
theorem reclaimLoop_filter (cutoff maxRetries : ℤ) : ∀ (runIds : List String) {q : InProcess},
    q.Sound → runIds.Nodup → reclaimLoop cutoff maxRetries none runIds q =
      reclaimLoop cutoff maxRetries none
        (runIds.filter fun runId => (q.stale cutoff runId).isSome) q
  | [], _, _, _ => rfl
  | runId :: runIds, q, hq, hnodup => by
    obtain ⟨hnew, hnodup⟩ := List.nodup_cons.1 hnodup
    cases hstale : q.stale cutoff runId with
    | none =>
      have hskip : ¬ (q.stale cutoff runId).isSome := by simp [hstale]
      rw [List.filter_cons, if_neg hskip, reclaimLoop, hstale]
      exact reclaimLoop_filter cutoff maxRetries runIds hq hnodup
    | some entry =>
      have htake : (q.stale cutoff runId).isSome := by simp [hstale]
      rw [List.filter_cons, if_pos htake, reclaimLoop, reclaimLoop, hstale]
      dsimp only
      rw [← reclaimLoop_filter cutoff maxRetries runIds hq hnodup]
      split_ifs with hexhausted
      · rfl
      · obtain ⟨hfull, -⟩ | ⟨hsend, -⟩ := enqueueReadyLocked_cases (hq.not_mem_nextAttempt hstale)
        · rw [hfull]
        · rw [hsend]
          -- the leases that are still to visit are as stale as they were
          have hsame : (runIds.filter fun k => (q.stale cutoff k).isSome) = runIds.filter fun k =>
              ((q.requeue runId (nextAttempt entry)).stale cutoff k).isSome := by
            refine List.filter_congr fun k hk => ?_
            have hne : k ≠ runId := fun heq => hnew (heq ▸ hk)
            rw [stale_requeue hne]
          have hrest := reclaimLoop_filter cutoff maxRetries runIds
            (q := q.requeue runId (nextAttempt entry)) (hq.erase runId) hnodup
          rw [hsame]
          exact congrArg (Prod.map Reclamation.addReclaimed id) hrest

variable {cutoff maxRetries : ℤ} {runId : String} {runIds : List String} {job : Job}

theorem sentTo_cons_none (hnone : q.requeued? cutoff maxRetries runId = none) (kind : String) :
    q.sentTo cutoff maxRetries (runId :: runIds) kind = q.sentTo cutoff maxRetries runIds kind := by
  rw [sentTo, List.filterMap_cons_none hnone, sentTo]

theorem sentTo_cons_some (hnew : runId ∉ runIds)
    (hreq : q.requeued? cutoff maxRetries runId = some job) (kind : String) :
    q.sentTo cutoff maxRetries (runId :: runIds) kind =
      (q.requeue runId job).sentTo cutoff maxRetries runIds kind +
        if job.runnerKind = kind then 1 else 0 := by
  have hrest := List.filterMap_congr fun k (hk : k ∈ runIds) =>
    show (q.requeue runId job).requeued? cutoff maxRetries k =
        q.requeued? cutoff maxRetries k by
      have hne : k ≠ runId := fun heq => hnew (heq ▸ hk)
      rw [requeued?, requeued?, stale_requeue hne]
  rw [sentTo, sentTo, hrest, List.filterMap_cons_some hreq, List.countP_cons]
  simp

/-- A reclaim comes to its end where the channels have room for all it sends. -/
theorem reclaimLoop_err_eq_none (cutoff maxRetries : ℤ) : ∀ (runIds : List String) {q : InProcess},
    q.Sound → runIds.Nodup → ((reclaimLoop cutoff maxRetries none runIds q).1.err = none ↔
      ∀ kind, 0 < q.sentTo cutoff maxRetries runIds kind →
        (q.ready.countP fun job => job.runnerKind = kind) +
          q.sentTo cutoff maxRetries runIds kind ≤ channelCapacity)
  | [], _, _, _ => by simp [reclaimLoop, sentTo]
  | runId :: runIds, q, hq, hnodup => by
    obtain ⟨hnew, hnodup⟩ := List.nodup_cons.1 hnodup
    have ih := reclaimLoop_err_eq_none cutoff maxRetries runIds hq hnodup
    rw [reclaimLoop]
    cases hstale : q.stale cutoff runId with
    | none =>
      have hnone : q.requeued? cutoff maxRetries runId = none := by simp [requeued?, hstale]
      simp only [sentTo_cons_none hnone]
      exact ih
    | some entry =>
      dsimp only
      split_ifs with hexhausted
      · have hnone : q.requeued? cutoff maxRetries runId = none := by
          simp [requeued?, hstale, hexhausted]
        simp only [sentTo_cons_none hnone]
        exact ih
      · have hreq : q.requeued? cutoff maxRetries runId = some (nextAttempt entry) := by
          simp [requeued?, hstale, hexhausted]
        obtain ⟨herr, _⟩ | ⟨hsend, _⟩ := enqueueReadyLocked_cases (hq.not_mem_nextAttempt hstale)
        · rw [herr]
          refine iff_of_false (by simp) fun hall => ?_
          have hkind := hall (nextAttempt entry).runnerKind
          rw [sentTo_cons_some hnew hreq, if_pos rfl] at hkind
          omega
        · rw [hsend]
          have ih := reclaimLoop_err_eq_none cutoff maxRetries runIds
            (q := q.requeue runId (nextAttempt entry)) (hq.erase runId) hnodup
          refine Iff.trans ih (forall_congr' fun kind => ?_)
          rw [sentTo_cons_some hnew hreq, requeue, List.countP_append, List.countP_singleton]
          simp only [decide_eq_true_eq]
          split_ifs with hkind
          · subst hkind
            omega
          · rfl

/-- Two reclaims of the same leases in different orders. -/
theorem reclaimLoop_perm {cutoff maxRetries : ℤ} {runIds runIds' : List String} (hq : q.Sound)
    (hnodup : runIds.Nodup) (hperm : runIds.Perm runIds')
    (herr : (reclaimLoop cutoff maxRetries none runIds q).1.err = none) :
    (reclaimLoop cutoff maxRetries none runIds' q).1.err = none ∧
    (reclaimLoop cutoff maxRetries none runIds q).1.reclaimed =
      (reclaimLoop cutoff maxRetries none runIds' q).1.reclaimed ∧
    (reclaimLoop cutoff maxRetries none runIds q).1.dead.Perm
      (reclaimLoop cutoff maxRetries none runIds' q).1.dead := by
  have hnodup' := hperm.nodup_iff.1 hnodup
  have hsent (kind : String) : q.sentTo cutoff maxRetries runIds kind =
      q.sentTo cutoff maxRetries runIds' kind := (hperm.filterMap _).countP_eq _
  have herr' : (reclaimLoop cutoff maxRetries none runIds' q).1.err = none := by
    rw [reclaimLoop_err_eq_none cutoff maxRetries _ hq hnodup] at herr
    rw [reclaimLoop_err_eq_none cutoff maxRetries _ hq hnodup']
    simpa only [hsent] using herr
  obtain ⟨visited, _, spec⟩ := reclaimLoop_spec cutoff maxRetries runIds none hq hnodup
  obtain ⟨visited', _, spec'⟩ := reclaimLoop_spec cutoff maxRetries runIds' none hq hnodup'
  -- both come to the end
  have hall : runIds = visited := by rw [spec.split, spec.finished herr, List.append_nil]
  have hall' : runIds' = visited' := by rw [spec'.split, spec'.finished herr', List.append_nil]
  subst hall hall'
  refine ⟨herr', ?_, ?_⟩
  · rw [spec.reclaimed, spec'.reclaimed]
    exact (hperm.filterMap _).length_eq
  · rw [spec.dead, spec'.dead]
    exact hperm.filterMap _

theorem reclaimStale_err_of_hasRoom (hq : q.Sound) {maxAge maxRetries : ℤ}
    {order : MapOrder} (hroom : (QueueOp.reclaimStale maxAge maxRetries order).hasRoom now q) :
    (q.reclaimStale none (now - maxAge) maxRetries order).1.err = none := by
  have hperm := order.2 q.inflight.keys
  refine (reclaimLoop_err_eq_none _ _ _ hq
    (hperm.nodup_iff.2 q.inflight.keys_nodup)).2 fun kind hpos => ?_
  have hsent : q.sentTo (now - maxAge) maxRetries (order.1 q.inflight.keys) kind =
      q.sentTo (now - maxAge) maxRetries q.inflight.keys kind := (hperm.filterMap _).countP_eq _
  rw [hsent] at hpos ⊢
  obtain ⟨job, hjob, hkind⟩ := List.countP_pos_iff.1 hpos
  have hbound := List.all_eq_true.1 hroom job hjob
  rw [of_decide_eq_true hkind] at hbound
  exact of_decide_eq_true hbound

/-- The in-process queue fails only for want of room. -/
theorem serve_ne_failed (hq : q.Sound) {op : QueueOp} (hroom : op.hasRoom now q) :
    (q.serve now op).1 ≠ .failed := by
  cases op with
  | enqueue =>
    simp only [QueueOp.hasRoom, Bool.or_eq_true, decide_eq_true_eq, Bool.not_eq_true'] at hroom
    simp only [serve, enqueue]
    obtain hcanceled | hfull := hroom
    · simp [hcanceled]
    · split_ifs <;> simp_all
  | nack runId generation =>
    simp only [QueueOp.hasRoom] at hroom
    simp only [serve, nack]
    cases hmatching : q.matching runId generation with
    | none => simp
    | some entry =>
      rw [hmatching, Option.all_some, Bool.not_eq_true'] at hroom
      have hctx : Context.canceled none = false := rfl
      by_cases hcanceled : entry.job.runId ∈ q.canceled
      · simp [enqueueReadyLocked, hctx, hcanceled]
      · simp [enqueueReadyLocked, hctx, hcanceled, hroom]
  | reclaimStale =>
    have herr := reclaimStale_err_of_hasRoom hq hroom
    simp [serve, herr]
  | dequeue | ack | renew | cancel | lookupInflight =>
    intro h
    cases h

end InProcess

end Runkite
