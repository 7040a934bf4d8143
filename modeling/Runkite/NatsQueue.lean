import Runkite.Bucket
import Runkite.InProcessQueue

/-!
# The NATS job queue

The queue on JetStream : a work-queue stream that counts the deliveries of each message and
delivers one again after its ack wait or a negative ack, and a key-value bucket with the delivery
that is inflight for a run. The count is the generation that fences a run's attempts.

A call of a replica is a sequence of single requests to the server, and those of other calls come
in between. `LeaseOp` is what `Ack`, `Renew`, `Nack`, `Cancel` and one turn of `ReclaimStale`
have in common : read the entry, decide, publish to the reply subject of its delivery, and write
the entry if its revision is still the one that was read. A dequeue records its delivery with an
unconditional put.

The stream holds one message per run. JetStream takes what is published to the reply subject of
any delivery of a message for the message, also after a later delivery.
-/

namespace Runkite

/-! ## The server -/

/-- The reply subject of a delivery. -/
structure Reply where
  runId : String
  delivery : ℕ
deriving DecidableEq, Repr

inductive MessageState where
  | available
  | outstanding (since : ℤ)
  /-- Acked or terminated. -/
  | gone
deriving DecidableEq, Repr

structure NatsMessage where
  job : Job
  delivered : ℕ := 0
  state : MessageState := .available

/-- An entry of the inflight bucket. -/
structure LeaseEntry where
  reply : Reply
  generation : ℤ
  touchedAt : ℤ
  job : Job
deriving DecidableEq, Repr

structure NatsServer where
  now : ℤ := 0
  stream : Hash NatsMessage := ∅
  inflight : Bucket LeaseEntry := .empty
  canceled : List String := []

/-- What is published to a reply subject. -/
inductive Token where
  | ack
  | nak
  | wpi
  | term
deriving DecidableEq, Repr

/-- `AckWait` in milliseconds. -/
def ackWait : ℤ := 30 * 1000

def NatsMessage.receive (m : NatsMessage) (now : ℤ) : Token → NatsMessage
  | .ack | .term => { m with state := .gone }
  | .nak => { m with state := match m.state with
      | .outstanding _ => .available
      | state => state }
  | .wpi => { m with state := match m.state with
      | .outstanding _ => .outstanding now
      | state => state }

namespace NatsServer

def setMessage (s : NatsServer) (runId : String) (m : NatsMessage) : NatsServer :=
  { s with stream := s.stream.insert runId m }

def publish (s : NatsServer) (token : Token) (reply : Reply) : NatsServer :=
  match s.stream.lookup reply.runId with
  | none => s
  | some m => s.setMessage reply.runId (m.receive s.now token)

/-- The consumer of a kind delivers the message of the run, if it is available. -/
def deliver (s : NatsServer) (kind runId : String) : Option (Job × ℕ) × NatsServer :=
  match s.stream.lookup runId with
  | none => (none, s)
  | some m =>
    if m.job.runnerKind = kind ∧ m.state = .available then
      (some (m.job, m.delivered + 1),
        s.setMessage runId { m with delivered := m.delivered + 1, state := .outstanding s.now })
    else (none, s)

/-- The ack wait of a delivery runs out. -/
def expire (s : NatsServer) (runId : String) : NatsServer :=
  match s.stream.lookup runId with
  | none => s
  | some m =>
    match m.state with
    | .outstanding since =>
      if since + ackWait ≤ s.now then s.setMessage runId { m with state := .available } else s
    | _ => s

def lookupInflight (s : NatsServer) (runId : String) : Option Job :=
  (s.inflight.get? runId).map fun (entry, _) =>
    if entry.generation ≠ 0 then { entry.job with generation := entry.generation } else entry.job

end NatsServer

/-! ## Calls -/

/-- A call that acts on an entry of the inflight bucket. -/
inductive LeaseOp where
  | ack (runId : String) (generation : ℤ)
  | renew (runId : String) (generation : ℤ)
  | nack (runId : String) (generation : ℤ)
  | cancel (runId : String)
  /-- `ReclaimStale`, with the keys that are still to visit. -/
  | reclaim (maxAge cutoff maxRetries : ℤ) (keys : List String)
deriving DecidableEq, Repr

/-- A call and the request it makes next. -/
inductive NatsCall where
  | fetch (kind : String)
  | check (kind : String) (job : Job) (delivery : ℕ)
  | put (entry : LeaseEntry)
  | dequeued (job : Job)
  | get (op : LeaseOp)
  | publish (op : LeaseOp) (runId : String) (entry : LeaseEntry) (rev : ℕ)
  | write (op : LeaseOp) (runId : String) (entry : LeaseEntry) (rev : ℕ) (touchedAt : ℤ)
  | mark (runId : String)
  /-- With the entry that an accepted `Ack` or `Renew` acted on. -/
  | returned (op : LeaseOp) (entry : Option LeaseEntry)
  /-- The call failed or its replica crashed. -/
  | failed
deriving DecidableEq, Repr

namespace LeaseOp

/-- The key to read. -/
def target : LeaseOp → Option String
  | .ack runId _ | .renew runId _ | .nack runId _ | .cancel runId => some runId
  | .reclaim _ _ _ keys => keys.head?

/-- The call acts on this entry. -/
def admits : LeaseOp → LeaseEntry → Bool
  | .ack _ generation, entry | .renew _ generation, entry | .nack _ generation, entry =>
    entry.generation = generation
  | .cancel _, _ => true
  | .reclaim _ cutoff _ _, entry => entry.touchedAt ≤ cutoff

/-- A reclaim reports the entry as a poison pill. -/
def exhausted : LeaseOp → LeaseEntry → Bool
  | .reclaim _ _ maxRetries _, entry => 0 < maxRetries && maxRetries < entry.generation + 1
  | _, _ => false

def token (op : LeaseOp) (entry : LeaseEntry) : Token :=
  match op with
  | .ack _ _ => .ack
  | .renew _ _ => .wpi
  | .nack _ _ => .nak
  | .cancel _ => .term
  | .reclaim _ _ _ _ => if op.exhausted entry then .wpi else .nak

/-- What comes after an entry that the call does not act on. -/
def pass : LeaseOp → NatsCall
  | .cancel runId => .mark runId
  | .reclaim maxAge cutoff maxRetries keys => .get (.reclaim maxAge cutoff maxRetries keys.tail)
  | op => .returned op none

/-- What comes after the deletion of the entry, whether or not it was still there. -/
def finish (op : LeaseOp) (entry : LeaseEntry) : NatsCall :=
  match op with
  | .ack _ _ => .returned op (some entry)
  | op => op.pass

end LeaseOp

namespace NatsCall

/-- The write of a call : `Renew` updates the entry, the others delete it. -/
def writeEntry (op : LeaseOp) (runId : String) (entry : LeaseEntry) (rev : ℕ) (touchedAt : ℤ)
    (s : NatsServer) : NatsCall × NatsServer :=
  match op with
  | .renew _ _ =>
    let updated := { entry with touchedAt := touchedAt }
    match s.inflight.update runId updated rev with
    | some inflight => (.returned op (some updated), { s with inflight := inflight })
    | none => (.returned op none, s)
  | op =>
    match s.inflight.delete runId rev with
    | some inflight => (op.finish entry, { s with inflight := inflight })
    | none => (op.finish entry, s)

/-- The next request of a call; `runId` is the run whose message a fetch gets. -/
def next (runId : String) (c : NatsCall) (s : NatsServer) : NatsCall × NatsServer :=
  match c with
  | .fetch kind =>
    match s.deliver kind runId with
    | (some (job, delivery), s) => (.check kind job delivery, s)
    | (none, s) => (.fetch kind, s)
  | .check kind job delivery =>
    if job.runId ∈ s.canceled then (.fetch kind, s.publish .term ⟨job.runId, delivery⟩)
    else (.put ⟨⟨job.runId, delivery⟩, delivery, s.now, job⟩, s)
  | .put entry =>
    (.dequeued { entry.job with generation := entry.generation },
      { s with inflight := s.inflight.put entry.job.runId entry })
  | .get op =>
    match op.target with
    | none => (.returned op none, s)
    | some runId =>
      match s.inflight.get? runId with
      | none => (op.pass, s)
      | some (entry, rev) =>
        if op.admits entry then (.publish op runId entry rev, s) else (op.pass, s)
  | .publish op runId entry rev =>
    (if op.exhausted entry then op.pass else .write op runId entry rev s.now,
      s.publish (op.token entry) entry.reply)
  | .write op runId entry rev touchedAt => writeEntry op runId entry rev touchedAt s
  | .mark runId => (.returned (.cancel runId) none, { s with canceled := runId :: s.canceled })
  | c => (c, s)

/-- The call fails or its replica crashes, if it has not returned. -/
def abort : NatsCall → NatsCall
  | .dequeued job => .dequeued job
  | .returned op entry => .returned op entry
  | _ => .failed

end NatsCall

/-! ## Interleavings -/

structure Nats where
  server : NatsServer := {}
  calls : List NatsCall := []

inductive NatsEvent where
  | dequeue (kind : String)
  | ack (runId : String) (generation : ℤ)
  | renew (runId : String) (generation : ℤ)
  | nack (runId : String) (generation : ℤ)
  | cancel (runId : String)
  | reclaimStale (maxAge maxRetries : ℤ) (order : MapOrder)
  | proceed (i : ℕ) (runId : String)
  | abort (i : ℕ)
  | tick (d : ℕ)
  | expire (runId : String)

namespace Nats

/-- The jobs are published, and no call was made. -/
def start (jobs : List Job) : Nats where
  server := { stream := jobs.foldr (fun job stream => stream.insert job.runId { job := job }) ∅ }

def accept (s : Nats) (c : NatsCall) : Nats := { s with calls := s.calls ++ [c] }

def step : NatsEvent → Nats → Nats
  | .dequeue kind, s => s.accept (.fetch kind)
  | .ack runId generation, s => s.accept (.get (.ack runId generation))
  | .renew runId generation, s => s.accept (.get (.renew runId generation))
  | .nack runId generation, s => s.accept (.get (.nack runId generation))
  | .cancel runId, s => s.accept (.get (.cancel runId))
  | .reclaimStale maxAge maxRetries order, s =>
    s.accept (.get (.reclaim maxAge (s.server.now - maxAge) maxRetries
      (order.1 s.server.inflight.keys)))
  | .proceed i runId, s =>
    match s.calls[i]? with
    | none => s
    | some c =>
      { server := (c.next runId s.server).2
        calls := s.calls.set i (c.next runId s.server).1 }
  | .abort i, s =>
    match s.calls[i]? with
    | none => s
    | some c => { s with calls := s.calls.set i c.abort }
  | .tick d, s => { s with server := { s.server with now := s.server.now + d } }
  | .expire runId, s => { s with server := s.server.expire runId }

/-- The generation tracked as inflight for a run. -/
def tracked (s : Nats) (runId : String) : Option ℤ :=
  (s.server.inflight.get? runId).map fun e => e.1.generation

end Nats

end Runkite
