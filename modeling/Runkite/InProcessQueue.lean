import Runkite.RedisQueue
import Runkite.Trace

/-!
# The in-process job queue

The queue that a single process uses instead of Redis : a channel of capacity `1000` per runner
kind, the leases and the canceled runs. Every call below runs to its end before the next one.

A channel is the jobs of its kind in the order they were sent, so `ready` holds all channels. A
`select` with more than one case to choose from is decided by an argument, and so is the order
in which `ReclaimStale` ranges over the leases. A context may be canceled at any time, also
between two steps of that loop; it is given by how many more times `ctx.Err()` is nil. Generations go
up by one and do not come to the end of `int64`.
-/

namespace Runkite

/-! ## State -/

/-- An assignment, with the fields that the queue reads and the others as one. -/
structure Job where
  runId : String
  runnerKind : String
  generation : ℤ
  graphId : String := ""
  tenantId : String := ""
  fields : String := ""
deriving DecidableEq, Repr

structure InflightEntry where
  job : Job
  dequeuedAt : ℤ
deriving DecidableEq, Repr

structure InProcess where
  /-- The jobs in the channels, oldest first. -/
  ready : List Job := []
  inflight : Hash InflightEntry := ∅
  canceled : List String := []

inductive QueueError where
  | context
  | readyQueueFull
deriving DecidableEq, Repr

structure PoisonPill where
  runId : String
  generation : ℤ
  agentId : String
  tenantId : String
deriving DecidableEq, Repr

/-- How many more times the context has no error; `none` for one that is never canceled. -/
abbrev Context := Option ℕ

namespace Context

def canceled (ctx : Context) : Bool := ctx = some 0

/-- After one more call of `ctx.Err()`. -/
def checked (ctx : Context) : Context := ctx.map fun n => n - 1

end Context

/-- The order in which a `range` over a map visits its keys. -/
def MapOrder := { visit : List String → List String // ∀ keys, (visit keys).Perm keys }

def MapOrder.id : MapOrder := ⟨fun keys => keys, fun keys => .refl keys⟩

def channelCapacity : ℕ := 1000

namespace InProcess

/-! ## Calls -/

def full (q : InProcess) (kind : String) : Bool :=
  channelCapacity ≤ q.ready.countP fun job => job.runnerKind = kind

def send (q : InProcess) (job : Job) : InProcess := { q with ready := q.ready ++ [job] }

/-- `Enqueue`. A call that finds room in the channel and its context canceled may take either
case; one that finds no room waits until its context is canceled. -/
def enqueue (q : InProcess) (job : Job) (giveUp : Bool) : Option QueueError × InProcess :=
  if job.runId ∈ q.canceled then (none, q)
  else if q.full job.runnerKind || giveUp then (some .context, q)
  else (none, q.send job)

/-- `Dequeue`, for a call that receives at most so many times before its timer or its context
ends it. -/
def dequeue (kind : String) (now : ℤ) : ℕ → InProcess → Option Job × InProcess
  | 0, q => (none, q)
  | receives + 1, q =>
    match q.ready.find? fun job => job.runnerKind = kind with
    | none => (none, q)
    | some job =>
      let q := { q with ready := q.ready.eraseP fun job => job.runnerKind = kind }
      if job.runId ∈ q.canceled then dequeue kind now receives q
      else (some job, { q with inflight := q.inflight.insert job.runId ⟨job, now⟩ })

/-- The lease that a presented generation matches. -/
def matching (q : InProcess) (runId : String) (generation : ℤ) : Option InflightEntry :=
  (q.inflight.lookup runId).filter fun entry => entry.job.generation = generation

def ack (q : InProcess) (runId : String) (generation : ℤ) : Bool × InProcess :=
  match q.matching runId generation with
  | none => (false, q)
  | some _ => (true, { q with inflight := q.inflight.erase runId })

def renew (q : InProcess) (runId : String) (generation now : ℤ) : Bool × InProcess :=
  match q.matching runId generation with
  | none => (false, q)
  | some entry =>
    (true, { q with inflight := q.inflight.insert runId { entry with dequeuedAt := now } })

/-- `enqueueReadyLocked`, which never waits. -/
def enqueueReadyLocked (q : InProcess) (ctx : Context) (job : Job) : Except QueueError InProcess :=
  if ctx.canceled then .error .context
  else if job.runId ∈ q.canceled then .ok q
  else if q.full job.runnerKind then .error .readyQueueFull
  else .ok (q.send job)

def nack (q : InProcess) (ctx : Context) (runId : String) (generation : ℤ) :
    Option QueueError × InProcess :=
  match q.matching runId generation with
  | none => (none, q)
  | some entry =>
    match q.enqueueReadyLocked ctx entry.job with
    | .error e => (some e, q)
    | .ok q => (none, { q with inflight := q.inflight.erase runId })

def cancel (q : InProcess) (runId : String) : InProcess :=
  { q with canceled := runId :: q.canceled, inflight := q.inflight.erase runId }

/-! ## Reclaim -/

structure Reclamation where
  reclaimed : ℕ := 0
  dead : List PoisonPill := []
  err : Option QueueError := none

def Reclamation.addReclaimed (r : Reclamation) : Reclamation :=
  { r with reclaimed := r.reclaimed + 1 }

def Reclamation.addDead (r : Reclamation) (pill : PoisonPill) : Reclamation :=
  { r with dead := pill :: r.dead }

/-- The lease of a run, if it is stale. -/
def stale (q : InProcess) (cutoff : ℤ) (runId : String) : Option InflightEntry :=
  (q.inflight.lookup runId).filter fun entry => entry.dequeuedAt < cutoff

def pill (runId : String) (entry : InflightEntry) : PoisonPill where
  runId := runId
  generation := entry.job.generation + 1
  agentId := entry.job.graphId
  tenantId := entry.job.tenantId

/-- The next generation of a lease is beyond a positive limit. -/
def exhausted (maxRetries : ℤ) (entry : InflightEntry) : Bool :=
  0 < maxRetries && maxRetries < entry.job.generation + 1

/-- The job of a lease under its next generation. -/
def nextAttempt (entry : InflightEntry) : Job :=
  { entry.job with generation := entry.job.generation + 1 }

/-- The loop of `ReclaimStale` over the keys that are still to visit. -/
def reclaimLoop (cutoff maxRetries : ℤ) :
    Context → List String → InProcess → Reclamation × InProcess
  | _, [], q => ({}, q)
  | ctx, runId :: runIds, q =>
    match q.stale cutoff runId with
    | none => reclaimLoop cutoff maxRetries ctx runIds q
    | some entry =>
      if exhausted maxRetries entry then
        (reclaimLoop cutoff maxRetries ctx runIds q).map (·.addDead (pill runId entry)) id
      else
        match q.enqueueReadyLocked ctx (nextAttempt entry) with
        | .error e => ({ err := some e }, q)
        | .ok q =>
          (reclaimLoop cutoff maxRetries ctx.checked runIds
            { q with inflight := q.inflight.erase runId }).map Reclamation.addReclaimed id

/-- `ReclaimStale` with the cutoff it computes from the clock. -/
def reclaimStale (q : InProcess) (ctx : Context) (cutoff maxRetries : ℤ) (order : MapOrder) :
    Reclamation × InProcess :=
  reclaimLoop cutoff maxRetries ctx (order.1 q.inflight.keys) q

end InProcess

/-! ## Sequences of calls -/

inductive QueueCall where
  | enqueue (job : Job) (giveUp : Bool)
  | dequeue (kind : String) (now : ℤ) (receives : ℕ)
  | ack (runId : String) (generation : ℤ)
  | renew (runId : String) (generation now : ℤ)
  | nack (ctx : Context) (runId : String) (generation : ℤ)
  | cancel (runId : String)
  | reclaimStale (ctx : Context) (cutoff maxRetries : ℤ) (order : MapOrder)

namespace QueueCall

def step : QueueCall → InProcess → InProcess
  | .enqueue job giveUp, q => (q.enqueue job giveUp).2
  | .dequeue kind now receives, q => (InProcess.dequeue kind now receives q).2
  | .ack runId generation, q => (q.ack runId generation).2
  | .renew runId generation now, q => (q.renew runId generation now).2
  | .nack ctx runId generation, q => (q.nack ctx runId generation).2
  | .cancel runId, q => q.cancel runId
  | .reclaimStale ctx cutoff maxRetries order, q => (q.reclaimStale ctx cutoff maxRetries order).2

/-- The call sends a job of the run to its channel. -/
def enqueues (runId : String) : QueueCall → InProcess → Bool
  | .enqueue job giveUp, q =>
    job.runId = runId && job.runId ∉ q.canceled && !(q.full job.runnerKind || giveUp)
  | _, _ => false

/-- The call is an accepted `Ack` of the run. -/
def acks (runId : String) : QueueCall → InProcess → Bool
  | .ack runId' generation, q => runId' = runId && (q.ack runId' generation).1
  | _, _ => false

def cancels (runId : String) : QueueCall → Bool
  | .cancel runId' => runId' = runId
  | _ => false

end QueueCall

/-! ## Leases -/

variable {entry : InflightEntry}

namespace InProcess

variable {q q' : InProcess} {ctx : Context} {runId : String} {job : Job} {cutoff : ℤ}

/-- A lease is held under its own run's id, and a canceled run has none. -/
def Sound (q : InProcess) : Prop :=
  ∀ runId entry, q.inflight.lookup runId = some entry →
    entry.job.runId = runId ∧ runId ∉ q.canceled

theorem sound_empty : Sound {} := by
  intro runId entry h
  simp at h

theorem Sound.erase (hq : q.Sound) (runId : String) {ready : List Job} :
    Sound { q with ready := ready, inflight := q.inflight.erase runId } := by
  intro runId' entry h
  by_cases hne : runId' = runId
  · subst hne
    simp at h
  · exact hq runId' entry (by simpa [AList.lookup_erase_ne hne] using h)

theorem Sound.insert (hq : q.Sound) {ready : List Job}
    (hrun : entry.job.runId = runId) (hcanceled : runId ∉ q.canceled) :
    Sound { q with ready := ready, inflight := q.inflight.insert runId entry } := by
  intro runId' entry' h
  by_cases hne : runId' = runId
  · subst hne
    obtain rfl : entry = entry' := by simpa using h
    exact ⟨hrun, hcanceled⟩
  · exact hq runId' entry' (by simpa [AList.lookup_insert_ne hne] using h)

theorem lookup_of_matching {generation : ℤ}
    (h : q.matching runId generation = some entry) : q.inflight.lookup runId = some entry :=
  (Option.filter_eq_some_iff.1 h).1

theorem lookup_of_stale
    (h : q.stale cutoff runId = some entry) : q.inflight.lookup runId = some entry :=
  (Option.filter_eq_some_iff.1 h).1

theorem enqueueReadyLocked_ok (hjob : job.runId ∉ q.canceled)
    (h : q.enqueueReadyLocked ctx job = .ok q') : q' = q.send job := by
  unfold enqueueReadyLocked at h
  split_ifs at h
  exact (Except.ok.inj h).symm

/-- Jobs leave the channels; at most the last one is leased, and it is not canceled. -/
theorem dequeue_spec (kind : String) (now : ℤ) : ∀ (receives : ℕ) (q : InProcess), ∃ ready,
    InProcess.dequeue kind now receives q = (none, { q with ready := ready }) ∨
    ∃ job, job.runId ∉ q.canceled ∧ InProcess.dequeue kind now receives q =
      (some job, { q with ready := ready, inflight := q.inflight.insert job.runId ⟨job, now⟩ })
  | 0, q => ⟨q.ready, .inl rfl⟩
  | receives + 1, q => by
    unfold InProcess.dequeue
    split
    · exact ⟨q.ready, .inl rfl⟩
    · dsimp only
      split_ifs with hcanceled
      · exact dequeue_spec kind now receives _
      · exact ⟨_, .inr ⟨_, hcanceled, rfl⟩⟩

/-- The lease of a run ends and a job is sent in its place. -/
def requeue (q : InProcess) (runId : String) (job : Job) : InProcess :=
  { q with ready := q.ready ++ [job], inflight := q.inflight.erase runId }

/-! ## What a reclaim does -/

/-- The other runs keep the leases they had. -/
theorem stale_requeue {k : String} (hk : k ≠ runId) :
    (q.requeue runId job).stale cutoff k = q.stale cutoff k := by
  simp [stale, requeue, AList.lookup_erase_ne hk]

/-- The pill that is reported for a lease. -/
def pill? (q : InProcess) (cutoff maxRetries : ℤ) (runId : String) : Option PoisonPill :=
  ((q.stale cutoff runId).filter fun entry => exhausted maxRetries entry).map (pill runId)

/-- The job that a lease is sent to its channel as. -/
def requeued? (q : InProcess) (cutoff maxRetries : ℤ) (runId : String) : Option Job :=
  ((q.stale cutoff runId).filter fun entry => !exhausted maxRetries entry).map nextAttempt

/-- What a loop over `runIds` does : it comes to the end of them, or to one whose job it could not
send. -/
structure ReclaimSpec (q : InProcess) (cutoff maxRetries : ℤ) (runIds : List String)
    (res : Reclamation × InProcess) (visited rest : List String) : Prop where
  split : runIds = visited ++ rest
  ready : res.2.ready = q.ready ++ visited.filterMap (q.requeued? cutoff maxRetries)
  reclaimed : res.1.reclaimed = (visited.filterMap (q.requeued? cutoff maxRetries)).length
  dead : res.1.dead = visited.filterMap (q.pill? cutoff maxRetries)
  lease : ∀ runId, res.2.inflight.lookup runId =
    if runId ∈ visited ∧ (q.requeued? cutoff maxRetries runId).isSome then none
    else q.inflight.lookup runId
  canceled : res.2.canceled = q.canceled
  finished : res.1.err = none → rest = []
  stopped : res.1.err ≠ none →
    ∃ runId rest', rest = runId :: rest' ∧ (q.requeued? cutoff maxRetries runId).isSome

namespace ReclaimSpec

variable {cutoff maxRetries : ℤ} {runIds visited rest : List String}
  {res res' : Reclamation × InProcess}

/-- A lease that stays, with a pill or without. -/
theorem kept (spec : q.ReclaimSpec cutoff maxRetries runIds res visited rest)
    (hreq : q.requeued? cutoff maxRetries runId = none) (hq : res'.2 = res.2)
    (hreclaimed : res'.1.reclaimed = res.1.reclaimed) (herr : res'.1.err = res.1.err)
    (hdead : res'.1.dead = (q.pill? cutoff maxRetries runId).toList ++ res.1.dead) :
    q.ReclaimSpec cutoff maxRetries (runId :: runIds) res' (runId :: visited) rest where
  split := by rw [spec.split, List.cons_append]
  ready := by rw [hq, spec.ready, List.filterMap_cons_none hreq]
  reclaimed := by rw [hreclaimed, spec.reclaimed, List.filterMap_cons_none hreq]
  dead := by
    rw [hdead, spec.dead]
    cases hpill : q.pill? cutoff maxRetries runId <;> simp [hpill]
  lease k := by
    rw [hq, spec.lease k]
    by_cases hk : k = runId
    · simp [hk, hreq]
    · simp [hk]
  canceled := by rw [hq, spec.canceled]
  finished h := spec.finished (herr ▸ h)
  stopped h := spec.stopped (herr ▸ h)

/-- A lease that was ended, its job sent, before the loop goes on. -/
theorem sent (hfresh : runId ∉ runIds) (hreq : q.requeued? cutoff maxRetries runId = some job)
    (hpill : q.pill? cutoff maxRetries runId = none)
    (spec : (q.requeue runId job).ReclaimSpec cutoff maxRetries runIds res visited rest) :
    q.ReclaimSpec cutoff maxRetries (runId :: runIds) (res.map Reclamation.addReclaimed id)
      (runId :: visited) rest := by
  -- the runs that come after have the leases they had
  have hstale : ∀ k ∈ runIds, (q.requeue runId job).stale cutoff k = q.stale cutoff k :=
    fun k hk => stale_requeue fun h => hfresh (h ▸ hk)
  have hvisited : ∀ k ∈ visited, k ∈ runIds := fun k hk =>
    spec.split ▸ List.mem_append_left rest hk
  have hrequeued : ∀ k ∈ runIds, (q.requeue runId job).requeued? cutoff maxRetries k =
      q.requeued? cutoff maxRetries k := fun k hk => by
    rw [requeued?, requeued?, hstale k hk]
  have hsent := List.filterMap_congr fun k hk => hrequeued k (hvisited k hk)
  have hpills := List.filterMap_congr fun k (hk : k ∈ visited) =>
    show (q.requeue runId job).pill? cutoff maxRetries k = q.pill? cutoff maxRetries k by
      rw [pill?, pill?, hstale k (hvisited k hk)]
  exact {
    split := by rw [spec.split, List.cons_append]
    ready := by
      refine spec.ready.trans ?_
      rw [hsent, List.filterMap_cons_some hreq]
      simp [requeue]
    reclaimed := by
      rw [List.filterMap_cons_some hreq, List.length_cons, ← hsent, ← spec.reclaimed]
      rfl
    dead := by
      rw [List.filterMap_cons_none hpill, ← hpills, ← spec.dead]
      rfl
    lease := fun k => by
      refine (spec.lease k).trans ?_
      by_cases hk : k = runId
      · subst hk
        simp [hreq, requeue]
      · by_cases hmem : k ∈ visited
        · rw [hrequeued k (hvisited k hmem)]
          simp [hk, hmem, requeue, AList.lookup_erase_ne hk]
        · simp [hk, hmem, requeue, AList.lookup_erase_ne hk]
    canceled := spec.canceled
    finished := spec.finished
    stopped := fun h => by
      obtain ⟨k, rest', hrest, hk⟩ := spec.stopped h
      have hmem : k ∈ runIds := by
        rw [spec.split, hrest]
        exact List.mem_append_right _ List.mem_cons_self
      exact ⟨k, rest', hrest, hrequeued k hmem ▸ hk⟩ }

end ReclaimSpec

theorem Sound.not_mem_nextAttempt (hq : q.Sound) (hstale : q.stale cutoff runId = some entry) :
    (nextAttempt entry).runId ∉ q.canceled := by
  obtain ⟨hrun, hnot⟩ := hq runId entry (lookup_of_stale hstale)
  rwa [nextAttempt, hrun]

theorem reclaimLoop_spec (cutoff maxRetries : ℤ) : ∀ (runIds : List String) (ctx : Context)
    {q : InProcess}, q.Sound → runIds.Nodup → ∃ visited rest, q.ReclaimSpec cutoff maxRetries runIds
      (reclaimLoop cutoff maxRetries ctx runIds q) visited rest
  | [], _, q, _, _ => ⟨[], [], by constructor <;> simp [reclaimLoop]⟩
  | runId :: runIds, ctx, q, hq, hnodup => by
    obtain ⟨hfresh, hnodup⟩ := List.nodup_cons.1 hnodup
    unfold reclaimLoop
    cases hstale : q.stale cutoff runId with
    | none =>
      obtain ⟨visited, rest, spec⟩ := reclaimLoop_spec cutoff maxRetries runIds ctx hq hnodup
      refine ⟨runId :: visited, rest, spec.kept (by simp [requeued?, hstale]) rfl rfl rfl ?_⟩
      simp [pill?, hstale]
    | some entry =>
      dsimp only
      split_ifs with hexhausted
      · obtain ⟨visited, rest, spec⟩ := reclaimLoop_spec cutoff maxRetries runIds ctx hq hnodup
        refine ⟨runId :: visited, rest,
          spec.kept (by simp [requeued?, hstale, hexhausted]) rfl rfl rfl ?_⟩
        rw [pill?, hstale, Option.filter_some_pos hexhausted]
        rfl
      · have hreq : q.requeued? cutoff maxRetries runId = some (nextAttempt entry) := by
          simp [requeued?, hstale, hexhausted]
        cases hsend : q.enqueueReadyLocked ctx (nextAttempt entry) with
        | error =>
          refine ⟨[], runId :: runIds, ?_⟩
          constructor <;> simp [hreq]
        | ok =>
          obtain rfl := enqueueReadyLocked_ok (hq.not_mem_nextAttempt hstale) hsend
          have hsound : (q.requeue runId (nextAttempt entry)).Sound := hq.erase runId
          obtain ⟨visited, rest, spec⟩ :=
            reclaimLoop_spec cutoff maxRetries runIds ctx.checked hsound hnodup
          exact ⟨runId :: visited, rest,
            spec.sent hfresh hreq (by simp [pill?, hstale, hexhausted])⟩

theorem reclaimStale_spec (hq : q.Sound) (ctx : Context) (cutoff maxRetries : ℤ)
    (order : MapOrder) : ∃ visited rest, q.ReclaimSpec cutoff maxRetries (order.1 q.inflight.keys)
      (q.reclaimStale ctx cutoff maxRetries order) visited rest :=
  reclaimLoop_spec cutoff maxRetries _ ctx hq ((order.2 _).nodup_iff.2 q.inflight.keys_nodup)

/-- What holds when a lease is requeued under its next generation holds after the loop. -/
theorem reclaimLoop_invariant {Inv : InProcess → Prop}
    (hstep : ∀ q runId entry, q.Sound → q.inflight.lookup runId = some entry → Inv q →
      Inv (q.requeue runId (nextAttempt entry)))
    (cutoff maxRetries : ℤ) : ∀ (runIds : List String) (ctx : Context) {q : InProcess}, q.Sound →
      Inv q → Inv (reclaimLoop cutoff maxRetries ctx runIds q).2
  | [], _, _, _, hinv => hinv
  | runId :: runIds, ctx, q, hq, hinv => by
    unfold reclaimLoop
    split
    · exact reclaimLoop_invariant hstep cutoff maxRetries runIds ctx hq hinv
    · rename_i entry hstale
      have hlookup := lookup_of_stale hstale
      split_ifs
      · exact reclaimLoop_invariant hstep cutoff maxRetries runIds ctx hq hinv
      split
      · exact hinv
      · rename_i q₁ hsend
        obtain ⟨hrun, _⟩ := hq runId entry hlookup
        obtain rfl := enqueueReadyLocked_ok (by rwa [nextAttempt, hrun]) hsend
        exact reclaimLoop_invariant hstep cutoff maxRetries runIds ctx.checked (hq.erase runId)
          (hstep q runId entry hq hlookup hinv)

/-! ## Copies -/

/-- How many times the run is in a channel or has a lease. -/
def copies (q : InProcess) (runId : String) : ℕ :=
  q.ready.countP (fun job => job.runId = runId) + (q.inflight.lookup runId).isSome.toNat

theorem copies_requeue {runId' : String} (runId : String)
    (hlookup : q.inflight.lookup runId' = some entry) (hjob : job.runId = runId') :
    (q.requeue runId' job).copies runId = q.copies runId := by
  by_cases hne : runId = runId'
  · subst hne
    simp [copies, requeue, hjob, hlookup]
  · simp [copies, requeue, hjob, Ne.symm hne, AList.lookup_erase_ne hne]

theorem perm_cons_eraseP {α : Type} {p : α → Bool} {a : α} : ∀ {l : List α},
    l.find? p = some a → l.Perm (a :: l.eraseP p)
  | [], h => by simp at h
  | b :: l, h => by
    by_cases hb : p b
    · obtain rfl : b = a := by simpa [hb] using h
      rw [List.eraseP_cons_of_pos hb]
    · rw [List.find?_cons_of_neg hb] at h
      rw [List.eraseP_cons_of_neg hb]
      exact ((perm_cons_eraseP h).cons b).trans (.swap a b _)

theorem copies_dequeue (kind : String) (now : ℤ) : ∀ (receives : ℕ) {q : InProcess},
    runId ∉ q.canceled → q.copies runId ≤ 1 →
    (dequeue kind now receives q).2.copies runId = q.copies runId
  | 0, _, _, _ => rfl
  | receives + 1, q, hcanceled, hone => by
    unfold dequeue
    split
    · rfl
    rename_i job hjob
    have hready := (perm_cons_eraseP hjob).countP_eq fun job => job.runId = runId
    rw [List.countP_cons] at hready
    dsimp only
    split_ifs with hskip
    · -- a canceled job is another run's
      have hne : job.runId ≠ runId := fun h => hcanceled (h ▸ hskip)
      have hsame : copies { q with ready := q.ready.eraseP fun job => job.runnerKind = kind } runId =
          q.copies runId := by
        simp only [copies, hready, hne, decide_false]
        rfl
      refine (copies_dequeue kind now receives ?_ ?_).trans hsame
      · exact hcanceled
      · exact hsame.trans_le hone
    · by_cases hrun : job.runId = runId
      · -- the only copy was in the channel, so that the lease is a new one
        have hnone : q.inflight.lookup runId = none := by
          cases hlookup : q.inflight.lookup runId with
          | none => rfl
          | some =>
            simp only [copies, hready, hlookup, hrun, decide_true, if_true, Option.isSome_some,
              Bool.toNat_true] at hone
            omega
        simp only [copies, hready, hnone, hrun, AList.lookup_insert, decide_true, if_true,
          Option.isSome_some, Option.isSome_none, Bool.toNat_true, Bool.toNat_false]
      · simp only [copies, hready, hrun, decide_false, AList.lookup_insert_ne (Ne.symm hrun)]
        rfl

end InProcess

namespace QueueCall

open InProcess

variable {q : InProcess} {runId : String}

section

variable (call : QueueCall) (hq : q.Sound)
include hq

theorem sound_step : (call.step q).Sound := by
  cases call with
  | enqueue =>
    simp only [step, InProcess.enqueue]
    split_ifs <;> exact hq
  | dequeue kind now receives =>
    rw [step]
    obtain ⟨_, h | ⟨_, hcanceled, h⟩⟩ := dequeue_spec kind now receives q <;> rw [h]
    · exact hq
    · exact hq.insert rfl hcanceled
  | ack runId generation =>
    simp only [step, InProcess.ack]
    split
    · exact hq
    · exact hq.erase runId
  | renew runId generation now =>
    simp only [step, InProcess.renew]
    split
    · exact hq
    · rename_i entry hentry
      obtain ⟨hrun, hcanceled⟩ := hq runId entry (lookup_of_matching hentry)
      exact hq.insert hrun hcanceled
  | nack ctx runId generation =>
    simp only [step, InProcess.nack]
    split
    · exact hq
    rename_i entry hentry
    split
    · exact hq
    · rename_i q₁ hsend
      obtain ⟨hrun, hcanceled⟩ := hq runId entry (lookup_of_matching hentry)
      obtain rfl := enqueueReadyLocked_ok (by rwa [hrun]) hsend
      exact hq.erase runId
  | cancel runId =>
    intro runId' entry h
    by_cases hne : runId' = runId
    · subst hne
      simp [step, InProcess.cancel] at h
    · obtain ⟨hrun, hcanceled⟩ := hq runId' entry (by
        simpa [step, InProcess.cancel, AList.lookup_erase_ne hne] using h)
      exact ⟨hrun, by simp [step, InProcess.cancel, hne, hcanceled]⟩
  | reclaimStale ctx cutoff maxRetries order =>
    exact reclaimLoop_invariant (fun _ runId _ _ _ hq => hq.erase runId) cutoff maxRetries _ ctx hq hq

/-- A run with at most one copy that is not canceled has as many copies as before, but for those
enqueued and acked. -/
theorem copies_step (hcanceled : runId ∉ q.canceled)
    (hcall : call.cancels runId = false) (hone : q.copies runId + (call.enqueues runId q).toNat ≤ 1) :
    (call.step q).copies runId + (call.acks runId q).toNat =
      q.copies runId + (call.enqueues runId q).toNat := by
  cases call with
  | enqueue job giveUp =>
    simp only [step, InProcess.enqueue, enqueues, acks]
    split_ifs with hskip hfull
    · simp [hskip]
    · simp [hfull]
    · simp only [copies, send, List.countP_append, List.countP_singleton, hskip, hfull]
      by_cases hrun : job.runId = runId
      · simp [hrun]
        omega
      · simp [hrun]
  | dequeue kind now receives =>
    exact copies_dequeue kind now receives hcanceled (Nat.le_of_add_right_le hone)
  | ack runId' generation =>
    simp only [step, InProcess.ack, enqueues, acks]
    split
    · simp
    · rename_i entry hentry
      have hlookup := lookup_of_matching hentry
      by_cases hne : runId' = runId
      · subst hne
        simp [copies, hlookup]
      · simp [copies, hne, AList.lookup_erase_ne (Ne.symm hne)]
  | renew runId' generation now =>
    simp only [step, InProcess.renew, enqueues, acks]
    split
    · rfl
    · rename_i entry hentry
      have hlookup := lookup_of_matching hentry
      by_cases hne : runId' = runId
      · subst hne
        simp [copies, hlookup]
      · simp [copies, AList.lookup_insert_ne (Ne.symm hne)]
  | nack ctx runId' generation =>
    simp only [step, InProcess.nack, enqueues, acks]
    split
    · rfl
    rename_i entry hentry
    have hlookup := lookup_of_matching hentry
    split
    · rfl
    · rename_i q₁ hsend
      obtain ⟨hrun, _⟩ := hq runId' entry hlookup
      obtain rfl := enqueueReadyLocked_ok (by rwa [hrun]) hsend
      exact copies_requeue runId hlookup hrun
  | cancel runId' =>
    have hne : runId' ≠ runId := by simpa [cancels] using hcall
    simp [step, InProcess.cancel, enqueues, acks, copies, AList.lookup_erase_ne (Ne.symm hne)]
  | reclaimStale ctx cutoff maxRetries order =>
    refine @reclaimLoop_invariant (fun q' => q'.copies runId = q.copies runId) ?_ cutoff
      maxRetries _ ctx q hq rfl
    intro q' runId' entry hq' hlookup hsame
    have hrun : (nextAttempt entry).runId = runId' := (hq' runId' entry hlookup).1
    exact (copies_requeue runId hlookup hrun).trans hsame

theorem mem_canceled_step :
    runId ∈ (call.step q).canceled ↔ call.cancels runId ∨ runId ∈ q.canceled := by
  cases call with
  | enqueue =>
    simp only [step, InProcess.enqueue]
    split_ifs <;> simp [cancels, send]
  | dequeue kind now receives =>
    obtain ⟨_, h | ⟨_, _, h⟩⟩ := dequeue_spec kind now receives q <;> simp [step, h, cancels]
  | ack =>
    simp only [step, InProcess.ack]
    split <;> simp [cancels]
  | renew =>
    simp only [step, InProcess.renew]
    split <;> simp [cancels]
  | nack ctx runId' generation =>
    simp only [step, InProcess.nack]
    split
    · simp [cancels]
    rename_i entry hentry
    split
    · simp [cancels]
    · rename_i q₁ hsend
      obtain ⟨hrun, _⟩ := hq runId' entry (lookup_of_matching hentry)
      obtain rfl := enqueueReadyLocked_ok (by rwa [hrun]) hsend
      simp [cancels, send]
  | cancel runId' => simp [step, InProcess.cancel, cancels, eq_comm]
  | reclaimStale ctx cutoff maxRetries order =>
    obtain ⟨_, _, spec⟩ := reclaimStale_spec hq ctx cutoff maxRetries order
    simp [step, spec.canceled, cancels]

end

end QueueCall

/-! ## Whole runs -/

open InProcess QueueCall

theorem sound_run (calls : List QueueCall) : (Trace.run step calls {}).Sound :=
  Trace.invariant_of_step (fun call _ hq => call.sound_step hq) calls sound_empty

variable {runId : String} {q : InProcess}

theorem copies_run {calls : List QueueCall} (hcalls : ∀ call ∈ calls, call.cancels runId = false)
    (hone : Trace.count step (enqueues runId) calls {} ≤ 1) :
    (Trace.run step calls {}).copies runId + Trace.count step (acks runId) calls {} =
      Trace.count step (enqueues runId) calls {} := by
  have hempty : copies {} runId = 0 := rfl
  have hbalance := @Trace.balance_eq _ _ step _ (fun q => q.Sound ∧ runId ∉ q.canceled)
    (fun q => q.copies runId) (enqueues runId) (acks runId) 1
    (fun call q hcall hq =>
      ⟨call.sound_step hq.1, by simp [call.mem_canceled_step hq.1, hcall, hq.2]⟩)
    (fun call q hcall hq => call.copies_step hq.1 hq.2 hcall) calls {}
    (Trace.every_of_mem hcalls) ⟨sound_empty, List.not_mem_nil⟩ (by omega)
  omega

/-- A canceled run stays canceled : whatever was called before and after, it has no lease and no
`Dequeue` returns it. -/
theorem inprocess_cancel_final (runId : String) (before after : List QueueCall) :
    let q := Trace.run step (before ++ .cancel runId :: after) {}
    q.inflight.lookup runId = none ∧ ∀ kind now receives,
      (InProcess.dequeue kind now receives q).1.map Job.runId ≠ some runId := by
  intro q
  obtain ⟨hsound, hcanceled⟩ : q.Sound ∧ runId ∈ q.canceled := by
    simp only [q, Trace.run_append, Trace.run_cons]
    refine @Trace.invariant_of_step _ _ step (fun q => q.Sound ∧ runId ∈ q.canceled)
      (fun call q hq => ⟨call.sound_step hq.1, (call.mem_canceled_step hq.1).2 (.inr hq.2)⟩) after _
      ⟨(QueueCall.cancel runId).sound_step (sound_run before), List.mem_cons_self⟩
  refine ⟨Option.eq_none_iff_forall_ne_some.2 fun entry h => (hsound runId entry h).2 hcanceled,
    fun kind now receives => ?_⟩
  obtain ⟨_, h | ⟨job, hjob, h⟩⟩ := dequeue_spec kind now receives q
  · simp [h]
  · rw [h]
    rintro ⟨⟩
    exact hjob hcanceled

/-- The leases that a reclaim came to have a pill exactly if they are stale and exhausted. -/
theorem InProcess.ReclaimSpec.pill_iff {cutoff maxRetries : ℤ}
    {runIds visited rest : List String} {res : Reclamation × InProcess}
    (spec : q.ReclaimSpec cutoff maxRetries runIds res visited rest) (hvisited : runId ∈ visited)
    (hstale : q.stale cutoff runId = some entry) : (∃ p ∈ res.1.dead, p.runId = runId) ↔
      0 < maxRetries ∧ maxRetries < entry.job.generation + 1 := by
  have hrun : ∀ k p, q.pill? cutoff maxRetries k = some p → p.runId = k := by
    intro k p hp
    obtain ⟨entry', -, rfl⟩ := Option.map_eq_some_iff.1 hp
    rfl
  rw [spec.dead]
  constructor
  · rintro ⟨p, hp, hpk⟩
    obtain ⟨k, -, hk⟩ := List.mem_filterMap.1 hp
    obtain rfl : k = runId := (hrun k p hk).symm.trans hpk
    obtain ⟨_, hentry', -⟩ := Option.map_eq_some_iff.1 hk
    obtain ⟨hstale', hexhausted⟩ := Option.filter_eq_some_iff.1 hentry'
    cases hstale.symm.trans hstale'
    simpa [exhausted] using hexhausted
  · rintro hlimit
    have hexhausted : exhausted maxRetries entry := by simpa [exhausted] using hlimit
    refine ⟨pill runId entry, List.mem_filterMap.2 ⟨runId, hvisited, ?_⟩, rfl⟩
    rw [pill?, hstale, Option.filter_some_pos hexhausted, Option.map_some]

/-- After every sequence of calls : a `Nack` that fails leaves the queue as it was; a run that was
enqueued once and neither canceled nor acked is in exactly one of the channels and the leases; and
whatever the order in which it visits the leases, a reclaim moves to the channels the stale leases
it came to that are not exhausted, each with its generation raised by one, counts them, and reports
a pill for those that are exhausted. It comes to all leases unless it fails, and leaves alone the
lease it fails on. -/
theorem inprocess_queue_exact (calls : List QueueCall) :
    let q := Trace.run step calls {}
    (∀ ctx runId generation, (q.nack ctx runId generation).1 ≠ none →
      (q.nack ctx runId generation).2 = q) ∧
    (∀ runId, Trace.count step (enqueues runId) calls {} = 1 →
      (∀ call ∈ calls, call.cancels runId = false) →
      Trace.count step (acks runId) calls {} = 0 →
      q.ready.countP (fun job => job.runId = runId) + (q.inflight.lookup runId).isSome.toNat = 1) ∧
    ∀ ctx cutoff maxRetries order,
      let res := q.reclaimStale ctx cutoff maxRetries order
      ∃ visited rest,
        q.ReclaimSpec cutoff maxRetries (order.1 q.inflight.keys) res visited rest ∧
        (∀ runId entry, runId ∈ visited → q.stale cutoff runId = some entry →
          ((∃ p ∈ res.1.dead, p.runId = runId) ↔
            0 < maxRetries ∧ maxRetries < entry.job.generation + 1)) ∧
        ∀ runId ∈ rest, res.2.inflight.lookup runId = q.inflight.lookup runId := by
  intro q
  have hq : q.Sound := sound_run calls
  refine ⟨fun ctx runId generation h => ?_, fun runId honce hcalls hacks => ?_, ?_⟩
  · unfold InProcess.nack at h ⊢
    split at h
    · exact absurd rfl h
    split at h
    · rfl
    · exact absurd rfl h
  · have hcopies := copies_run hcalls honce.le
    rw [honce, hacks] at hcopies
    exact hcopies
  · intro ctx cutoff maxRetries order res
    obtain ⟨visited, rest, spec⟩ := reclaimStale_spec hq ctx cutoff maxRetries order
    refine ⟨visited, rest, spec, fun runId entry => spec.pill_iff, fun runId hrest => ?_⟩
    have hnodup : (visited ++ rest).Nodup :=
      spec.split ▸ (order.2 _).nodup_iff.2 q.inflight.keys_nodup
    have hnot : runId ∉ visited := fun h => (List.nodup_append.1 hnodup).2.2 runId h runId hrest rfl
    rw [spec.lease runId, if_neg fun h => hnot h.1]

/-- The exhausted lease of `b` is stale, but the reclaim fails on `a`, which it visits first, and
reports no pill. -/
theorem inprocess_pill_unreported :
    let q := Trace.run step
      [.enqueue ⟨"b", "k", 3, "", "", ""⟩ false, .enqueue ⟨"a", "k", 0, "", "", ""⟩ false,
        .dequeue "k" 0 1, .dequeue "k" 0 1] {}
    let res := q.reclaimStale (some 0) 10 3 MapOrder.id
    q.stale 10 "b" = some ⟨⟨"b", "k", 3, "", "", ""⟩, 0⟩ ∧ res.1.dead = [] ∧
      res.1.err = some .context := by decide +kernel

end Runkite
