import Mathlib.Data.List.AList
import Mathlib.Data.List.Sort
import Mathlib.Data.String.Basic
import Runkite.Delimited

/-!
# The Redis job queue

The keys of the queue and its scripts. A stored assignment is the list of its top-level
members in the order they stand in the text, so that a decoder which takes the last of
duplicate keys is a search from the end (`Payload.generation`), and appending a member to
the text (`text_appendGeneration`) is appending to the list.

Every function below is one command or one script, which Redis runs without interleaving :
`enqueue`, `blmove`, `promote`, `drainPending`, `ack`, `renew`, `nack`, `cancel` and
`reclaimStale`. Lua prints the generations it writes with fourteen digits, so they are
exact integers as long as they stay below `10 ^ 14`.
-/

namespace Runkite

/-! ## Assignments -/

/-- A top-level member of an assignment's text. -/
inductive Field where
  | runId (id : String)
  | runnerKind (kind : String)
  | generation (g : ℤ)
  /-- Any other member, as text. -/
  | other (text : String)
deriving DecidableEq, Repr

/-- The text of a stored assignment, member by member. -/
abbrev Payload := List Field

namespace Payload

/-- What `cjson.decode` finds under `run_id`. -/
def runId (p : Payload) : Option String :=
  p.reverse.findSome? fun
    | .runId id => some id
    | _ => none

def runnerKind (p : Payload) : Option String :=
  p.reverse.findSome? fun
    | .runnerKind kind => some kind
    | _ => none

/-- The last `generation` member; an assignment without one has generation zero. -/
def generation (p : Payload) : ℤ :=
  (p.reverse.findSome? fun
    | .generation g => some g
    | _ => none).getD 0

/-- `job_json:gsub('}$', ',"generation":' .. g .. '}')`. -/
def appendGeneration (p : Payload) (g : ℤ) : Payload := p ++ [.generation g]

@[simp] theorem runId_appendGeneration (p : Payload) (g : ℤ) :
    (p.appendGeneration g).runId = p.runId := by simp [appendGeneration, runId]

@[simp] theorem generation_appendGeneration (p : Payload) (g : ℤ) :
    (p.appendGeneration g).generation = g := by simp [appendGeneration, generation]

/-- The text of an object, for a printer of its members. -/
def text (print : Field → List Char) (p : Payload) : List Char :=
  '{' :: [','].intercalate (p.map print) ++ ['}']

/-- Replace a closing brace at the end of a text. -/
def gsubClosing (s replacement : List Char) : List Char :=
  if s.getLast? = some '}' then s.dropLast ++ replacement else s

/-- Replacing the closing brace of the text appends a member. -/
theorem text_appendGeneration (print : Field → List Char) (p : Payload) (hp : p ≠ []) (g : ℤ) :
    gsubClosing (p.text print) (',' :: print (.generation g) ++ ['}']) =
      (p.appendGeneration g).text print := by
  have happ : [','].intercalate (p.map print ++ [print (.generation g)]) = _ :=
    Delimited.intercalate_append (by simpa using hp) (List.cons_ne_nil _ [])
  have hclosing : (p.text print).getLast? = some '}' := by
    rw [text, List.getLast?_append]
    rfl
  rw [gsubClosing, if_pos hclosing, text, text, appendGeneration, List.map_append, List.map_singleton,
    happ, List.dropLast_concat]
  simp

end Payload

/-- The assignment the control plane enqueues. -/
structure RunAssignment where
  runId : String
  runnerKind : String
  generation : ℤ
  /-- The members between the ones above, and those after them. -/
  first : List String := []
  second : List String := []
  third : List String := []

/-- `json.Marshal(job)`; a zero generation is omitted. -/
def RunAssignment.marshal (job : RunAssignment) : Payload :=
  .runId job.runId :: job.first.map .other ++ .runnerKind job.runnerKind ::
    job.second.map .other ++ (if job.generation = 0 then [] else [.generation job.generation]) ++
      job.third.map .other

/-- What is found in a written assignment by a reader that passes over the other members. -/
theorem RunAssignment.findSome?_marshal {β : Type} (job : RunAssignment) {f : Field → Option β}
    (hother : ∀ text, f (.other text) = none) : job.marshal.reverse.findSome? f =
      (if job.generation = 0 then none else f (.generation job.generation)).or
        ((f (.runnerKind job.runnerKind)).or (f (.runId job.runId))) := by
  have hothers : ∀ l : List String, (l.map Field.other).reverse.findSome? f = none := by
    simp [hother]
  simp only [marshal, List.reverse_append, List.reverse_cons, List.findSome?_append, hothers]
  split_ifs <;> simp

theorem RunAssignment.runId_marshal (job : RunAssignment) : job.marshal.runId = some job.runId := by
  rw [Payload.runId, findSome?_marshal job fun _ => rfl]
  split_ifs <;> rfl

theorem RunAssignment.generation_marshal (job : RunAssignment) (h : job.generation ≠ 0) :
    job.marshal.generation = job.generation := by
  rw [Payload.generation, findSome?_marshal job fun _ => rfl, if_neg h]
  rfl

/-! ## Keys -/

/-- A hash or a sorted set, under its members. -/
abbrev Hash (α : Type) := AList fun _ : String => α

structure Redis where
  /-- The ready lists, newest first, each entry under the runner kind of its list. -/
  ready : List (String × Payload) := []
  /-- `rk:inflight:pending`, from the left. -/
  pending : List Payload := []
  /-- `rk:inflight:data`. -/
  data : Hash Payload := ∅
  /-- `rk:inflight:zset` with its scores. -/
  zset : Hash ℤ := ∅
  /-- `rk:inflight:generation`. -/
  gen : Hash ℤ := ∅
  /-- `rk:canceled:z` with its scores. -/
  canceled : Hash ℤ := ∅

/-- `canceledMemberTTL` in milliseconds. -/
def canceledMemberTTL : ℤ := 24 * 60 * 60 * 1000

namespace Redis

/-! ## Enqueue and dequeue -/

/-- The marker test the scripts share : an expired marker is removed, one that is not
expired says that the run was canceled. -/
def checkCanceled (s : Redis) (runId : String) (now : ℤ) : Bool × Redis :=
  match s.canceled.lookup runId with
  | some score =>
    if canceledMemberTTL < now - score then (false, { s with canceled := s.canceled.erase runId })
    else (true, s)
  | none => (false, s)

/-- The `LPUSH` of `Enqueue`. -/
def enqueue (s : Redis) (job : RunAssignment) : Redis :=
  { s with ready := (job.runnerKind, job.marshal) :: s.ready }

/-- The right end of the list of one kind, and the lists without it. -/
def popRight (kind : String) :
    List (String × Payload) → Option (Payload × List (String × Payload))
  | [] => none
  | e :: es =>
    match popRight kind es with
    | some (p, es') => some (p, e :: es')
    | none => if e.1 = kind then some (e.2, es) else none

/-- `BLMOVE queue pending RIGHT LEFT`; nothing happens while the list is empty. -/
def blmove (s : Redis) (kind : String) : Option Payload × Redis :=
  match popRight kind s.ready with
  | some (p, ready) => (some p, { s with ready := ready, pending := p :: s.pending })
  | none => (none, s)

/-- The three writes that record a job as inflight. -/
def track (s : Redis) (runId : String) (p : Payload) (score : ℤ) : Redis :=
  { s with
    data := s.data.insert runId p
    zset := s.zset.insert runId score
    gen := s.gen.insert runId p.generation }

/-- The three deletions that end a lease. -/
def untrack (s : Redis) (runId : String) : Redis :=
  { s with
    data := s.data.erase runId
    zset := s.zset.erase runId
    gen := s.gen.erase runId }

instance : LawfulBEq Payload := inferInstance

/-- `promoteScript` : the status and the generation it returns. -/
def promote (s : Redis) (p : Payload) (now : ℤ) : (Bool × ℤ) × Redis :=
  match p.runId with
  | none => ((false, 0), { s with pending := s.pending.erase p })
  | some runId =>
    if p ∈ s.pending then
      match checkCanceled { s with pending := s.pending.erase p } runId now with
      | (true, s) => ((false, 0), s)
      | (false, s) => ((true, p.generation), s.track runId p now)
    else if (s.data.lookup runId).isSome then
      ((true, (s.gen.lookup runId).getD p.generation), s)
    else ((false, 0), s)

/-- One turn of the loop of `drainPendingScript`, for a popped payload. -/
def drainOne (now : ℤ) (s : Redis) (p : Payload) : Redis :=
  match p.runId with
  | none => s
  | some runId =>
    match checkCanceled s runId now with
    | (true, s) => s
    | (false, s) => s.track runId p now

/-- `drainPendingScript`. -/
def drainPending (s : Redis) (now : ℤ) : Redis :=
  s.pending.foldl (drainOne now) { s with pending := [] }

/-! ## Ack, renew, nack, cancel -/

/-- `checkGenerationScript` : the generation on record is the presented one. -/
def checkGeneration (s : Redis) (runId : String) (generation : ℤ) : Bool :=
  match s.gen.lookup runId with
  | some g => g = generation
  | none =>
    match s.data.lookup runId with
    | some p => p.generation = generation
    | none => false

/-- `ackScript`. -/
def ack (s : Redis) (runId : String) (generation : ℤ) : Bool × Redis :=
  if (s.data.lookup runId).isSome && s.checkGeneration runId generation then
    (true, s.untrack runId)
  else (false, s)

/-- `renewScript`. -/
def renew (s : Redis) (runId : String) (generation now : ℤ) : Bool × Redis :=
  if (s.data.lookup runId).isSome && s.checkGeneration runId generation then
    (true, { s with zset := s.zset.insert runId now })
  else (false, s)

/-- `nackScript`. The first component is false where the script replies with an error. -/
def nack (s : Redis) (runId : String) (generation now : ℤ) : Bool × Redis :=
  match s.data.lookup runId with
  | none => (true, s)
  | some p =>
    if !s.checkGeneration runId generation then (true, s)
    else
      match p.runnerKind with
      | none => (false, s)
      | some kind =>
        let kept : Bool := match s.canceled.lookup runId with
          | some score => score < now - canceledMemberTTL
          | none => true
        (true, (if kept then { s with ready := (kind, p) :: s.ready } else s).untrack runId)

/-- `ZREMRANGEBYSCORE canceled -inf cutoff`. -/
def trimCanceled (s : Redis) (cutoff : ℤ) : Redis :=
  let kept := s.canceled.entries.filter fun e => cutoff < e.2
  { s with canceled := kept.foldr (fun e m => m.insert e.1 e.2) ∅ }

/-- The pipeline of `Cancel`. -/
def cancel (s : Redis) (runId : String) (now : ℤ) : Redis :=
  let s := s.untrack runId
  trimCanceled { s with canceled := s.canceled.insert runId now } (now - canceledMemberTTL)

/-! ## Reclaim -/

/-- What `reclaimStaleScript` does about one stale id. -/
inductive Reclaimed where
  | dropped
  | requeued
  | dead (generation : ℤ) (p : Payload)
  | failed (message : String)
deriving DecidableEq, Repr

/-- One turn of the loop of `reclaimStaleScript`. -/
def reclaimOne (now maxRetries : ℤ) (s : Redis) (runId : String) : Reclaimed × Redis :=
  match s.data.lookup runId with
  | none => (.dropped, { s with zset := s.zset.erase runId, gen := s.gen.erase runId })
  | some p =>
    match s.checkCanceled runId now with
    | (true, s) => (.dropped, s.untrack runId)
    | (false, s) =>
      let current := (s.gen.lookup runId).getD p.generation
      if current < 0 then (.failed "invalid inflight generation", s)
      else
        let s := if (s.gen.lookup runId).isSome then s
          else { s with gen := s.gen.insert runId current }
        if 0 < maxRetries ∧ maxRetries < current + 1 then (.dead (current + 1) p, s)
        else
          match p.runnerKind with
          | none => (.failed "attempt to concatenate field 'runner_kind' (a nil value)", s)
          | some kind =>
            (.requeued, { s with
              ready := (kind, p.appendGeneration (current + 1)) :: s.ready
              gen := s.gen.insert runId (current + 1)
              zset := s.zset.erase runId
              data := s.data.erase runId })

/-- The loop of `reclaimStaleScript`. An error ends it; what was written before stays. -/
def reclaimLoop (now maxRetries : ℤ) : Redis → List String → Option String × Redis
  | s, [] => (none, s)
  | s, runId :: runIds =>
    match reclaimOne now maxRetries s runId with
    | (.failed message, s) => (some message, s)
    | (_, s) => reclaimLoop now maxRetries s runIds

/-- `ZRANGEBYSCORE zset -inf cutoff`, ordered by score and then by member. -/
def staleIds (s : Redis) (cutoff : ℤ) : List String :=
  ((s.zset.entries.filter fun e => e.2 ≤ cutoff).insertionSort fun a b =>
    a.2 < b.2 ∨ a.2 = b.2 ∧ a.1 ≤ b.1).map Sigma.fst

/-- `reclaimStaleScript`; the markers are trimmed only where the loop got to its end. -/
def reclaimStale (s : Redis) (cutoff now maxRetries : ℤ) : Option String × Redis :=
  match reclaimLoop now maxRetries s (s.staleIds cutoff) with
  | (some message, s) => (some message, s)
  | (none, s) => (none, s.trimCanceled (now - canceledMemberTTL))

end Redis

/-! ## Steps -/

/-- What a replica can issue, at the granularity at which Redis interleaves. -/
inductive QueueStep where
  /-- The `ZREM` of `isCanceled`, for a marker whose score it read at any earlier time. -/
  | forgetCanceled (runId : String)
  | enqueue (job : RunAssignment)
  | blmove (kind : String)
  | promote (p : Payload) (now : ℤ)
  | drainPending (now : ℤ)
  | ack (runId : String) (generation : ℤ)
  | renew (runId : String) (generation now : ℤ)
  | nack (runId : String) (generation now : ℤ)
  | cancel (runId : String) (now : ℤ)
  | reclaimStale (cutoff now maxRetries : ℤ)

namespace QueueStep

def perform : QueueStep → Redis → Redis
  | .forgetCanceled runId, s => { s with canceled := s.canceled.erase runId }
  | .enqueue job, s => s.enqueue job
  | .blmove kind, s => (s.blmove kind).2
  | .promote p now, s => (s.promote p now).2
  | .drainPending now, s => s.drainPending now
  | .ack runId generation, s => (s.ack runId generation).2
  | .renew runId generation now, s => (s.renew runId generation now).2
  | .nack runId generation now, s => (s.nack runId generation now).2
  | .cancel runId now, s => s.cancel runId now
  | .reclaimStale cutoff now maxRetries, s => (s.reclaimStale cutoff now maxRetries).2

end QueueStep

end Runkite
