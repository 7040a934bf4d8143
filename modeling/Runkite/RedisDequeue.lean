import Mathlib.Data.List.Perm.Subperm
import Runkite.QueueCopies

/-!
# What Dequeue hands out

A `Dequeue` of the Redis queue is two commands : the blocking move of an assignment to the
pending list, and the script that promotes it to a lease. Any number of replicas have such calls
in flight, and the other commands of all replicas come in between.

The call returns the assignment it moved, not what the script answers. If a drain took the
assignment off the pending list first, the script succeeds for whatever lease the run has by
then, and that can be one of a later generation (`dequeue_superseded`). If no drain comes
between the move and the promotion of any call, the assignment is still pending at its promotion,
and the generation that is handed out is the one on record (`dequeue_undisturbed`).
-/

namespace Runkite

/-- The generation on record for a run : the generation key, or else the stored assignment. -/
def Redis.trackedGeneration (s : Redis) (runId : String) : Option ℤ :=
  (s.gen.lookup runId).or ((s.data.lookup runId).map Payload.generation)

/-! ## Calls in flight -/

inductive DequeuePhase where
  | move
  | promote (p : Payload)
  /-- The call returned an assignment, or nothing. -/
  | returned (job : Option Payload)
deriving DecidableEq

/-- A call of `Dequeue` for a runner kind. -/
structure Dequeue where
  kind : String
  phase : DequeuePhase := .move
deriving DecidableEq

namespace Dequeue

/-- The next command of a call. A call that moved nothing, or whose assignment was discarded,
goes round its loop. -/
def next (now : ℤ) (d : Dequeue) (s : Redis) : Dequeue × Redis :=
  match d.phase with
  | .move =>
    match s.blmove d.kind with
    | (some p, s) => ({ d with phase := .promote p }, s)
    | (none, s) => (d, s)
  | .promote p =>
    match s.promote p now with
    | ((true, _), s) => ({ d with phase := .returned (some p) }, s)
    | ((false, _), s) => ({ d with phase := .move }, s)
  | .returned _ => (d, s)

/-- The assignment that the call moved and did not promote yet. -/
def held? (d : Dequeue) : Option Payload :=
  match d.phase with
  | .promote p => some p
  | _ => none

/-- The assignment that the call returned. -/
def job? (d : Dequeue) : Option Payload :=
  match d.phase with
  | .returned job => job
  | _ => none

/-- A call that ends without an assignment : its deadline passed, its command failed, or its
replica crashed. -/
def abort (d : Dequeue) : Dequeue := { d with phase := .returned none }

end Dequeue

open Dequeue

/-- The keys and the calls of all replicas. -/
structure Replicas where
  redis : Redis := {}
  dequeues : List Dequeue := []

inductive ReplicaStep where
  | dequeue (kind : String)
  | proceed (i : ℕ) (now : ℤ)
  /-- The next command of a call takes effect and its reply is lost. -/
  | lose (i : ℕ) (now : ℤ)
  | abort (i : ℕ)
  /-- A command that is not one of a `Dequeue`. -/
  | queue (step : QueueStep)

namespace Replicas

/-- The call makes its next command, and goes on as `f` says. -/
def advance (f : Dequeue → Dequeue) (i : ℕ) (now : ℤ) (s : Replicas) : Replicas :=
  match s.dequeues[i]? with
  | none => s
  | some d =>
    { redis := (d.next now s.redis).2
      dequeues := s.dequeues.set i (f (d.next now s.redis).1) }

def step : ReplicaStep → Replicas → Replicas
  | .dequeue kind, s => { s with dequeues := s.dequeues ++ [{ kind := kind }] }
  | .proceed i now, s => s.advance id i now
  | .lose i now, s => s.advance Dequeue.abort i now
  | .abort i, s =>
    match s.dequeues[i]? with
    | none => s
    | some d => { s with dequeues := s.dequeues.set i d.abort }
  | .queue step, s => { s with redis := step.perform s.redis }

/-! ## The generation that is handed out -/

/-- If the step ends a call with an assignment, the generation of the assignment is on record
for its run after the step. -/
def HandsOutCurrent (ev : ReplicaStep) (s : Replicas) : Prop :=
  ∀ i now d job, ev = .proceed i now → s.dequeues[i]? = some d → d.job? = none →
    (d.next now s.redis).1.job? = some job →
    ∃ runId, job.runId = some runId ∧
      (s.step ev).redis.trackedGeneration runId = some job.generation

end Replicas

/-- A promotion that succeeds on a pending assignment made it the lease of its run. -/
theorem Redis.of_promote_true {s : Redis} {p : Payload} {now : ℤ}
    (h : (s.promote p now).1.1) (hmem : p ∈ s.pending) : ∃ runId, p.runId = some runId ∧
      (s.promote p now).2.trackedGeneration runId = some p.generation := by
  cases hrun : p.runId with
  | none => simp [promote, hrun] at h
  | some runId =>
    refine ⟨runId, rfl, ?_⟩
    simp only [promote, hrun, if_pos hmem] at h ⊢
    generalize checkCanceled _ runId now = r at h ⊢
    obtain ⟨_ | _, _⟩ := r
    · simp [trackedGeneration, track]
    · simp at h

namespace Replicas

/-- The assignments between a move and a promotion. -/
def held (s : Replicas) : List Payload := s.dequeues.filterMap Dequeue.held?

/-- Where every assignment that a call holds is pending, a promotion leases its own. -/
theorem handsOutCurrent_of_held_subperm {s : Replicas} (hs : s.held.Subperm s.redis.pending)
    (ev : ReplicaStep) : HandsOutCurrent ev s := by
  rintro i now d job rfl hd hnone hjob
  have hstep : (s.step (.proceed i now)).redis = (d.next now s.redis).2 := by
    simp [step, advance, hd]
  rw [hstep]
  -- only a promotion ends a call with an assignment, and it is the one that was moved
  obtain ⟨p, hphase⟩ : ∃ p, d.phase = .promote p := by
    cases hphase : d.phase with
    | promote p => exact ⟨p, rfl⟩
    | move =>
      simp only [next, hphase] at hjob
      split at hjob <;> simp [job?, hphase] at hjob
    | returned =>
      simp only [job?, hphase] at hnone
      simp [next, job?, hphase, hnone] at hjob
  have hheld : p ∈ s.held :=
    List.mem_filterMap.2 ⟨d, List.mem_of_getElem? hd, by simp [held?, hphase]⟩
  cases hpromote : s.redis.promote p now with
  | mk reply redis =>
    obtain ⟨ok, g⟩ := reply
    simp only [next, hphase, hpromote] at hjob ⊢
    cases ok with
    | false => simp [job?] at hjob
    | true =>
      obtain rfl : p = job := by simpa [job?] using hjob
      obtain ⟨runId, hrun, htracked⟩ :=
        Redis.of_promote_true (by rw [hpromote]) (hs.subset hheld)
      rw [hpromote] at htracked
      exact ⟨runId, hrun, htracked⟩

end Replicas

/-- A replica moves the run and stalls. Another drains it, reclaims it when it is stale, moves
and promotes it. -/
def stalledDequeue : List ReplicaStep :=
  [.queue (.enqueue ⟨"r", "k", 1, [], [], []⟩), .dequeue "k", .dequeue "k", .proceed 0 5,
    .queue (.drainPending 10), .queue (.reclaimStale 20 30 3), .proceed 1 40, .proceed 1 50]

/-- When the stalled replica comes back, its promotion succeeds on the lease of the second
generation, and the assignment of the first is handed out. -/
theorem dequeue_superseded :
    let s := Trace.run Replicas.step stalledDequeue {}
    let s' := Trace.run Replicas.step (stalledDequeue ++ [.proceed 0 60]) {}
    (s.dequeues.map fun d => d.job?.map Payload.generation) = [none, some 2] ∧
      (s'.dequeues.map fun d => d.job?.map Payload.generation) = [some 1, some 2] ∧
      s'.redis.trackedGeneration "r" = some 2 ∧
      ¬ Trace.Every Replicas.step Replicas.HandsOutCurrent
        (stalledDequeue ++ [.proceed 0 60]) {} := by
  refine ⟨by decide +kernel, by decide +kernel, by decide +kernel, fun h => ?_⟩
  obtain ⟨hlast, -⟩ := (Trace.every_append.1 h).2
  obtain ⟨runId, hrun, htracked⟩ := hlast 0 60
    ⟨"k", .promote [.runId "r", .runnerKind "k", .generation 1]⟩
    [.runId "r", .runnerKind "k", .generation 1] rfl (by decide +kernel) rfl (by decide +kernel)
  cases hrun
  revert htracked
  decide +kernel

/-! ## Calls that no drain disturbs -/

namespace Redis

@[simp] theorem pending_checkCanceled (s : Redis) (runId : String) (now : ℤ) :
    (s.checkCanceled runId now).2.pending = s.pending := by
  obtain ⟨_, hs, -⟩ := checkCanceled_spec s runId now
  rw [hs]

theorem pending_reclaimOne (now maxRetries : ℤ) (s : Redis) (runId : String) :
    (reclaimOne now maxRetries s runId).2.pending = s.pending := by
  have hcheck := s.pending_checkCanceled runId now
  unfold reclaimOne
  split
  · rfl
  generalize s.checkCanceled runId now = r at hcheck ⊢
  obtain ⟨_ | _, _⟩ := r
  · rw [← hcheck]
    dsimp only
    split_ifs <;> first | rfl | (split <;> rfl)
  · exact hcheck

theorem pending_reclaimStale (s : Redis) (cutoff now maxRetries : ℤ) :
    (s.reclaimStale cutoff now maxRetries).2.pending = s.pending :=
  @reclaimStale_invariant s now (fun s' => s'.pending = s.pending) maxRetries
    (fun s' k h => (pending_reclaimOne now maxRetries s' k).trans h) (fun _ _ h => h) rfl cutoff

theorem pending_nack (s : Redis) (runId : String) (generation now : ℤ) :
    (s.nack runId generation now).2.pending = s.pending := by
  unfold nack
  split
  · rfl
  split_ifs
  · rfl
  split
  · rfl
  · dsimp only
    split_ifs <;> rfl

theorem pending_blmove (s : Redis) (kind : String) :
    (s.blmove kind).2.pending = (s.blmove kind).1.toList ++ s.pending := by
  unfold blmove
  split <;> rfl

theorem pending_promote (s : Redis) (p : Payload) (now : ℤ) :
    (s.promote p now).2.pending = s.pending.erase p := by
  by_cases hmem : p ∈ s.pending
  · rw [promote_eq, if_pos hmem]
    obtain ⟨-, h⟩ | ⟨k, _, -, -, h⟩ :=
      drainOne_cases { s with pending := s.pending.erase p } p now
    · rw [h]
    · obtain ⟨-, h⟩ | h := h
      · rw [h]
      · rw [h]
        rfl
  · rw [promote_eq, if_neg hmem, List.erase_of_not_mem hmem]

end Redis

/-- What a command of a call does to the assignment the call holds, it does to the pending list. -/
theorem Dequeue.held_next_subperm (now : ℤ) (d : Dequeue) (s : Redis) {rest : List Payload}
    (h : (d.held?.toList ++ rest).Subperm s.pending) :
    ((d.next now s).1.held?.toList ++ rest).Subperm (d.next now s).2.pending := by
  obtain ⟨kind, phase⟩ := d
  cases phase with
  | move =>
    have hblmove := s.pending_blmove kind
    simp only [next]
    generalize s.blmove kind = r at hblmove ⊢
    obtain ⟨_ | p, s'⟩ := r
    · rw [show s'.pending = s.pending from hblmove]
      exact h
    · rw [show s'.pending = p :: s.pending from hblmove]
      exact List.subperm_cons p |>.2 h
  | promote p =>
    have hrest : rest.Subperm (s.promote p now).2.pending := by
      rw [s.pending_promote p now]
      simpa [held?] using h.erase p
    simp only [next]
    generalize s.promote p now = r at hrest ⊢
    obtain ⟨⟨_ | _, g⟩, _⟩ := r <;> exact hrest
  | returned => exact h

namespace Replicas

variable {ev : ReplicaStep} {s : Replicas}

/-- No drain comes while a call holds an assignment, and only calls promote. -/
def undisturbed : ReplicaStep → Replicas → Bool
  | .queue (.drainPending _), s => s.held.isEmpty
  | .queue (.promote _ _), _ => false
  | _, _ => true

theorem filterMap_set_perm {calls : List Dequeue} {i : ℕ} {d : Dequeue}
    (hd : calls[i]? = some d) (d' : Dequeue) : ((calls.set i d').filterMap held?).Perm
      (d'.held?.toList ++ (calls.eraseIdx i).filterMap held?) := by
  obtain ⟨hi, -⟩ := List.getElem?_eq_some_iff.1 hd
  have hperm := (List.set_perm_cons_eraseIdx hi d').filterMap held?
  rw [List.filterMap_cons] at hperm
  cases h : d'.held? <;> simpa [h] using hperm

theorem held_set_subperm {i : ℕ} {d d' : Dequeue} {pending : List Payload}
    (hd : s.dequeues[i]? = some d) (hs : s.held.Subperm s.redis.pending)
    (h : ∀ rest, (d.held?.toList ++ rest).Subperm s.redis.pending →
      (d'.held?.toList ++ rest).Subperm pending) :
    ((s.dequeues.set i d').filterMap held?).Subperm pending := by
  have hself : s.dequeues.set i d = s.dequeues := by
    obtain ⟨hi, rfl⟩ := List.getElem?_eq_some_iff.1 hd
    exact List.set_getElem_self hi
  have hheld := filterMap_set_perm hd d
  rw [hself] at hheld
  exact (filterMap_set_perm hd d').subperm.trans (h _ (hheld.symm.subperm.trans hs))

theorem held_subperm_step (hev : undisturbed ev s)
    (hs : s.held.Subperm s.redis.pending) : (s.step ev).held.Subperm (s.step ev).redis.pending := by
  have hadvance : ∀ (f : Dequeue → Dequeue) i now,
      (∀ d rest, ((f d).held?.toList ++ rest).Subperm (d.held?.toList ++ rest)) →
      (s.advance f i now).held.Subperm (s.advance f i now).redis.pending := by
    intro f i now hf
    unfold advance
    split
    · exact hs
    · rename_i d hd
      exact held_set_subperm hd hs fun rest hrest =>
        (hf _ rest).trans (d.held_next_subperm now s.redis hrest)
  have habort : ∀ (d : Dequeue) rest,
      (d.abort.held?.toList ++ rest).Subperm (d.held?.toList ++ rest) := fun d rest =>
    (List.sublist_append_right _ rest).subperm
  cases ev with
  | dequeue kind =>
    have hnone : ({ kind := kind } : Dequeue).held? = none := rfl
    simpa [step, held, List.filterMap_append, List.filterMap_cons, hnone] using hs
  | proceed i now => exact hadvance id i now fun _ _ => List.Subperm.refl _
  | lose i now => exact hadvance abort i now habort
  | abort i =>
    simp only [step]
    split
    · exact hs
    · rename_i d hd
      exact held_set_subperm hd hs fun rest hrest => (habort d rest).trans hrest
  | queue step =>
    change s.held.Subperm (step.perform s.redis).pending
    cases step with
    | promote => cases hev
    | drainPending =>
      rw [List.isEmpty_iff.1 hev]
      exact List.nil_subperm
    | blmove kind =>
      simp only [QueueStep.perform, Redis.pending_blmove]
      exact hs.trans (List.sublist_append_right _ _).subperm
    | nack | reclaimStale =>
      simpa only [QueueStep.perform, Redis.pending_nack, Redis.pending_reclaimStale] using hs
    | ack | renew =>
      simp only [QueueStep.perform, Redis.ack, Redis.renew]
      split_ifs <;> exact hs
    | _ => exact hs

end Replicas

/-- In every run from the start in which no drain comes while a call holds an assignment, a call
of `Dequeue` returns only assignments of the generation on record. -/
theorem dequeue_undisturbed (steps : List ReplicaStep)
    (h : Trace.Every Replicas.step (fun ev s => Replicas.undisturbed ev s = true) steps {}) :
    Trace.Every Replicas.step Replicas.HandsOutCurrent steps {} :=
  Trace.every_of_invariant (fun _ _ => Replicas.held_subperm_step)
    (fun ev _ _ hs => Replicas.handsOutCurrent_of_held_subperm hs ev) h List.nil_subperm

/-- The stalled replica comes back before the drain. -/
theorem dequeue_undisturbed_back :
    let steps := stalledDequeue.take 4 ++ [.proceed 0 60, .queue (.drainPending 70)]
    ((Trace.run Replicas.step steps {}).dequeues.map fun d => d.job?.map Payload.generation) =
        [some 1, none] ∧ Trace.Every Replicas.step Replicas.HandsOutCurrent steps {} :=
  ⟨by decide +kernel, dequeue_undisturbed _ (by decide +kernel)⟩

end Runkite
