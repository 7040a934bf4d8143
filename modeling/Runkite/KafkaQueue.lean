import Runkite.InProcessQueue
import Runkite.RunsApi

/-!
# The Kafka job queue

The queue of one process on Kafka : job topics, whose offsets are committed per partition, and a
compacted state topic with the current entry of each run. The process keeps the entries in memory.
A write to the state topic is applied there at once if it is acknowledged, and `tailState` reads
every record back and applies it again, when it comes to it.

A produce and an offset commit may fail, or take effect with the acknowledgement lost. A message
that was fetched is not fetched again until the reader rejoins its group, and then if its offset
was not committed. `ReclaimStale` takes a snapshot of the stale entries and handles one after
another; the steps of other calls may come in between. Generations go up by one and do not come to
the end of `int64`.
-/

namespace Runkite

/-! ## Topics -/

/-- A message of the job topics. -/
structure KafkaMessage where
  kind : String
  job : Job
  fetched : Bool := false
  committed : Bool := false
deriving DecidableEq, Repr

structure KafkaLease where
  runnerKind : String
  generation : ℤ
  touchedAt : ℤ
  job : Job
deriving DecidableEq, Repr

/-- An entry of the state topic. -/
inductive StateEntry where
  | canceled
  | lease (e : KafkaLease)
deriving DecidableEq, Repr

/-- A call of `ReclaimStale`, with what is left of its snapshot. -/
structure KafkaReclaim where
  cutoff : ℤ
  maxRetries : ℤ
  stale : List (String × KafkaLease)
deriving DecidableEq, Repr

structure Kafka where
  /-- The messages of all job topics in the order they were produced. -/
  topic : List KafkaMessage := []
  /-- The records of the state topic; `none` is a tombstone. -/
  log : List (String × Option StateEntry) := []
  /-- How many records `tailState` has applied. -/
  tailed : ℕ := 0
  /-- The entries in memory. -/
  state : Hash StateEntry := ∅
  reclaims : List KafkaReclaim := []
  /-- The assignments that `Dequeue` returned, in order. -/
  results : List Job := []

namespace Kafka

/-- Apply a record to the entries in memory. -/
def applied (state : Hash StateEntry) (runId : String) : Option StateEntry → Hash StateEntry
  | none => state.erase runId
  | some entry => state.insert runId entry

/-- A produce to a job topic. -/
def produce (q : Kafka) (write : Delivery) (kind : String) (job : Job) : Kafka :=
  match write with
  | .failed => q
  | _ => { q with topic := q.topic ++ [{ kind := kind, job := job }] }

def putState (q : Kafka) (write : Delivery) (runId : String) (entry : Option StateEntry) : Kafka :=
  match write with
  | .failed => q
  | .lost => { q with log := q.log ++ [(runId, entry)] }
  | .done =>
    { q with log := q.log ++ [(runId, entry)], state := applied q.state runId entry }

/-- The message is in the partition, for a hash of the keys. -/
def inPartition (hash : String → ℕ) (kind : String) (p : ℕ) (m : KafkaMessage) : Bool :=
  m.kind = kind && hash m.job.runId = p

/-- Commit what was fetched from a partition. -/
def commit (hash : String → ℕ) (q : Kafka) (write : Delivery) (kind : String) (p : ℕ) : Kafka :=
  match write with
  | .failed => q
  | _ => { q with topic := q.topic.map fun m =>
      if inPartition hash kind p m && m.fetched then { m with committed := true } else m }

/-- The reader of a partition starts again at the committed offset. -/
def rejoin (hash : String → ℕ) (q : Kafka) (kind : String) (p : ℕ) : Kafka :=
  { q with topic := q.topic.map fun m =>
      if inPartition hash kind p m then { m with fetched := m.committed } else m }

/-! ## Calls -/

/-- The first element that satisfies `p`, with those before and after it. -/
def splitFirst {α : Type} (p : α → Bool) : List α → Option (List α × α × List α)
  | [] => none
  | a :: l =>
    if p a then some ([], a, l)
    else (splitFirst p l).map fun (before, b, after) => (a :: before, b, after)

def enqueue (q : Kafka) (write : Delivery) (job : Job) : Kafka :=
  match q.state.lookup job.runId with
  | some .canceled => q
  | _ => q.produce write job.runnerKind job

/-- The generation that a job is dequeued with. -/
def effective (generation : ℤ) : ℤ := if generation = 0 then 1 else generation

/-- The next message of a partition. -/
def nextMessage (hash : String → ℕ) (q : Kafka) (kind : String) (p : ℕ) :
    Option (List KafkaMessage × KafkaMessage × List KafkaMessage) :=
  splitFirst (fun m => inPartition hash kind p m && !m.fetched) q.topic

/-- `FetchMessage` : the reader moves past the message. -/
def fetch (q : Kafka) (before : List KafkaMessage) (m : KafkaMessage)
    (after : List KafkaMessage) : Kafka :=
  { q with topic := before ++ { m with fetched := true } :: after }

/-- What `Dequeue` does with the message it fetched : that of a canceled run is committed and
passed over, the entry of another is written before its offset is committed. -/
def receive (hash : String → ℕ) (q : Kafka) (m : KafkaMessage) (kind : String) (p : ℕ) (now : ℤ)
    (put commitWrite : Delivery) : Kafka :=
  match q.state.lookup m.job.runId with
  | some .canceled => q.commit hash commitWrite kind p
  | _ =>
    let generation := effective m.job.generation
    let q := q.putState put m.job.runId (some (.lease ⟨kind, generation, now, m.job⟩))
    match put, commitWrite with
    | .done, .done =>
      let q := q.commit hash commitWrite kind p
      { q with results := q.results ++ [{ m.job with generation := generation }] }
    | .done, _ => q.commit hash commitWrite kind p
    | _, _ => q

/-- One turn of the loop of `Dequeue`. -/
def dequeue (hash : String → ℕ) (q : Kafka) (kind : String) (p : ℕ) (now : ℤ)
    (put commitWrite : Delivery) : Kafka :=
  match q.nextMessage hash kind p with
  | none => q
  | some (before, m, after) =>
    (q.fetch before m after).receive hash m kind p now put commitWrite

/-- The lease that a presented generation matches. -/
def fenced (q : Kafka) (runId : String) (generation : ℤ) : Option KafkaLease :=
  match q.state.lookup runId with
  | some (.lease e) => if e.generation = generation then some e else none
  | _ => none

def ack (q : Kafka) (write : Delivery) (runId : String) (generation : ℤ) : Kafka :=
  match q.fenced runId generation with
  | none => q
  | some _ => q.putState write runId none

def renew (q : Kafka) (write : Delivery) (runId : String) (generation now : ℤ) : Kafka :=
  match q.fenced runId generation with
  | none => q
  | some e => q.putState write runId (some (.lease { e with touchedAt := now }))

/-- Produce the job of a lease under its next generation, and then a tombstone. -/
def requeue (q : Kafka) (write tombstone : Delivery) (runId : String) (e : KafkaLease) : Kafka :=
  let q := q.produce write e.runnerKind { e.job with generation := e.generation + 1 }
  match write with
  | .done => q.putState tombstone runId none
  | _ => q

def nack (q : Kafka) (write tombstone : Delivery) (runId : String) (generation : ℤ) : Kafka :=
  match q.fenced runId generation with
  | none => q
  | some e => q.requeue write tombstone runId e

def cancel (q : Kafka) (write : Delivery) (runId : String) : Kafka :=
  q.putState write runId (some .canceled)

/-- The stale leases, in the order the map is visited. -/
def staleLeases (q : Kafka) (cutoff : ℤ) (order : MapOrder) : List (String × KafkaLease) :=
  (order.1 q.state.keys).filterMap fun runId =>
    match q.state.lookup runId with
    | some (.lease e) => if e.touchedAt ≤ cutoff then some (runId, e) else none
    | _ => none

/-- The lease is still the one of the snapshot, as far as the loop of `ReclaimStale` looks. -/
def stillStale (q : Kafka) (cutoff : ℤ) (runId : String) (e : KafkaLease) : Bool :=
  match q.state.lookup runId with
  | some (.lease cur) => cur.generation = e.generation && cur.touchedAt ≤ cutoff
  | _ => false

/-- One turn of the loop of `ReclaimStale`. -/
def reclaimOne (q : Kafka) (write tombstone : Delivery) (cutoff maxRetries : ℤ) (runId : String)
    (e : KafkaLease) : Kafka :=
  if !q.stillStale cutoff runId e then q
  else if 0 < maxRetries && maxRetries < e.generation + 1 then q
  else q.requeue write tombstone runId e

def reclaimNext (q : Kafka) (i : ℕ) (write tombstone : Delivery) : Kafka :=
  match q.reclaims[i]? with
  | some ⟨cutoff, maxRetries, (runId, e) :: stale⟩ =>
    { q.reclaimOne write tombstone cutoff maxRetries runId e with
      reclaims := q.reclaims.set i ⟨cutoff, maxRetries, stale⟩ }
  | _ => q

/-- `tailState` applies its next record. -/
def tail (q : Kafka) : Kafka :=
  match q.log[q.tailed]? with
  | none => q
  | some (runId, entry) =>
    { q with state := applied q.state runId entry, tailed := q.tailed + 1 }

end Kafka

/-! ## Sequences of calls -/

inductive KafkaEvent where
  | enqueue (job : Job) (write : Delivery)
  | dequeue (kind : String) (p : ℕ) (now : ℤ) (put commit : Delivery)
  | ack (runId : String) (generation : ℤ) (write : Delivery)
  | renew (runId : String) (generation now : ℤ) (write : Delivery)
  | nack (runId : String) (generation : ℤ) (write tombstone : Delivery)
  | cancel (runId : String) (write : Delivery)
  | reclaimStale (cutoff maxRetries : ℤ) (order : MapOrder)
  | reclaimNext (i : ℕ) (write tombstone : Delivery)
  | tail
  | rejoin (kind : String) (p : ℕ)

namespace Kafka

def step (hash : String → ℕ) : KafkaEvent → Kafka → Kafka
  | .enqueue job write, q => q.enqueue write job
  | .dequeue kind p now put commit, q => q.dequeue hash kind p now put commit
  | .ack runId generation write, q => q.ack write runId generation
  | .renew runId generation now write, q => q.renew write runId generation now
  | .nack runId generation write tombstone, q => q.nack write tombstone runId generation
  | .cancel runId write, q => q.cancel write runId
  | .reclaimStale cutoff maxRetries order, q =>
    { q with reclaims := q.reclaims ++ [⟨cutoff, maxRetries, q.staleLeases cutoff order⟩] }
  | .reclaimNext i write tombstone, q => q.reclaimNext i write tombstone
  | .tail, q => q.tail
  | .rejoin kind p, q => q.rejoin hash kind p

/-- The generation tracked for a run. -/
def tracked (q : Kafka) (runId : String) : Option ℤ :=
  match q.state.lookup runId with
  | some (.lease e) => some e.generation
  | _ => none

/-- The generations that `Dequeue` returned for a run, in order. -/
def dequeued (q : Kafka) (runId : String) : List ℤ :=
  (q.results.filter fun job => job.runId = runId).map Job.generation

end Kafka

end Runkite
