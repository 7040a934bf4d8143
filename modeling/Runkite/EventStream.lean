import Runkite.RunEvents
import Runkite.Trace

/-!
# The event stream of a run

`replayRunEvents` sends the events of a run to one client until the run is completed. It reads
three sources at different moments : the log that the broker retains, a live channel that the
broker fills and that drops what does not fit, and the durable run. A terminal event is sent only
after the run was completed with it; if the run turns out to be completed otherwise, an end event
with the durable status is made up.

The call is a state machine (`StreamPc`) whose steps are its requests to the store and the broker
and the handling of one event each. Between them runners publish events, other replicas start
attempts and complete the run, and the broker closes the subscription.
-/

open Json (Members Number Text)
open Transaction (Driver)

namespace Runkite

/-- The status and message of a terminal event, `none` if its data does not decode or its status
is not terminal. -/
def RunEvent.outcome (e : RunEvent) : Option (RunStatus × String) :=
  match decodeTerminal e.data with
  | none => none
  | some (status, message) =>
    ((if e.method = "end" then RunStatus.ofString status else some .error).filter
      RunStatus.terminal).map fun status => (status, message)

/-! ## The reader -/

/-- The live channel of a subscriber. -/
structure Channel where
  queue : List RunEvent := []
  closed : Bool := false

def Channel.capacity : ℕ := 4096

/-- What the client was sent. -/
inductive Emission where
  | event (e : RunEvent)
  /-- `durableEnd` : the end event made up from the durable run. -/
  | durableEnd (generation : ℤ) (status : RunStatus)

inductive StreamPc where
  | subscribe
  | start
  | replay
  /-- Consuming the events of a replay. -/
  | past (events : List RunEvent)
  /-- Completing the run with a terminal event, from a replay with events left or from the
  channel. -/
  | completing (e : RunEvent) (q : CompletionRequest) (phase : CompletionPhase)
    (rest : Option (List RunEvent))
  /-- The completion was refused. -/
  | refused (e : RunEvent) (rest : Option (List RunEvent))
  | refreshReplayed
  | refreshFailed
  | wait
  | live
  | refreshTick
  | returned

structure StreamReader where
  runId : String
  ctx : Ctx := {}
  since : Option ℤ := none
  pc : StreamPc := .subscribe
  /-- `eventCh`. -/
  channel : Option Channel := none
  generation : ℤ := 0
  cursorGeneration : ℤ := 0
  /-- The highest sequence number seen of each generation. -/
  seen : ℤ → Option ℤ := fun _ => none
  controlEvents : List String := []
  /-- What was sent so far. -/
  emitted : List Emission := []

/-- What `consume` makes of an event. -/
inductive Verdict where
  | skip
  | complete (q : CompletionRequest)
  | emit

namespace StreamReader

variable (rd : StreamReader)

def isPolicyEvent (e : RunEvent) : Bool :=
  e.method = "tool_auth" && (rd.runId ++ "_tool_auth_").toList.isPrefixOf e.eventId.toList

/-- The event is deduplicated by its sequence number. -/
def sequenced (e : RunEvent) : Bool := 0 < e.seq && !rd.isPolicyEvent e

def marked (e : RunEvent) : Bool :=
  if rd.sequenced e then (rd.seen e.generation).any fun seq => e.seq ≤ seq
  else e.eventId ≠ "" && rd.controlEvents.contains e.eventId

def mark (e : RunEvent) : StreamReader :=
  if rd.sequenced e then
    if (rd.seen e.generation).getD 0 < e.seq then
      { rd with seen := Function.update rd.seen e.generation (some e.seq) }
    else rd
  else if e.eventId ≠ "" then { rd with controlEvents := e.eventId :: rd.controlEvents }
  else rd

/-- The cursor applies to the first generation if the run had no attempt yet. -/
def withCursor (e : RunEvent) : StreamReader :=
  if rd.cursorGeneration < 0 then { rd with cursorGeneration := e.generation } else rd

/-- The client has the event already. -/
def beforeCursor (e : RunEvent) : Bool :=
  rd.since.any fun since =>
    e.generation = rd.cursorGeneration && e.seq ≤ since && !e.isTerminal

/-- The part of `consume` before a completion or an emission. -/
def judge (e : RunEvent) : StreamReader × Verdict :=
  if rd.marked e then (rd, .skip)
  else if e.generation < rd.generation && !(e.generation = 0 && rd.isPolicyEvent e) then
    (rd.mark e, .skip)
  else
    let rd := rd.withCursor e
    if rd.beforeCursor e then (rd.mark e, .skip)
    else if e.isTerminal then
      match e.outcome with
      | none => (rd.mark e, .skip)
      | some (status, message) =>
        (rd, .complete
          { runId := rd.runId, generation := e.generation, status := status, error := message })
    else if rd.generation < e.generation && !rd.isPolicyEvent e then
      ({ rd with generation := e.generation }, .emit)
    else (rd, .emit)

def goto (pc : StreamPc) : StreamReader := { rd with pc := pc }

/-- `consume` returned without an error : the next event of the replay or of the channel. -/
def resume : Option (List RunEvent) → StreamReader
  | some rest => rd.goto (.past rest)
  | none => rd.goto .live

/-- `consume` returned an error : a replay is repeated after a delay, the channel is given up. -/
def retry : Option (List RunEvent) → StreamReader
  | some _ => rd.goto .wait
  | none => { rd with channel := none, pc := .replay }

/-- Send something and return. -/
def finish (fails : Bool) (x : Emission) : StreamReader :=
  if fails then rd.goto .returned else { rd with emitted := rd.emitted ++ [x], pc := .returned }

def consume (fails : Bool) (e : RunEvent) (rest : Option (List RunEvent)) : StreamReader :=
  match rd.judge e with
  | (rd, .skip) => rd.resume rest
  | (rd, .complete q) => rd.goto (.completing e q .read rest)
  | (rd, .emit) =>
    if fails then rd.goto .returned
    else (({ rd with emitted := rd.emitted ++ [.event e] } : StreamReader).mark e).resume rest

/-- `refresh`, once the run was read. -/
def refreshed (r : Run) : StreamReader :=
  { rd with generation := max rd.generation (metadataGeneration r.metadataMap attemptGenerationKey) }

def durableEnd (fails : Bool) (r : Run) : StreamReader :=
  rd.finish fails
    (.durableEnd (metadataGeneration r.metadataMap completionGenerationKey) r.status)

end StreamReader

/-! ## The system -/

/-- The store, the broker's state of the run and the reader. -/
structure Stream where
  db : Db
  log : List RunEvent := []
  closed : Bool := false
  reader : StreamReader

/-- What a step of the reader depends on besides the state. -/
structure StreamEnv extends CallEnv where
  /-- The caller subscribed. -/
  attach : Bool := true
  /-- The client cannot be sent anything any more. -/
  emitFails : Bool := false
  /-- The ticker of the state check fires. -/
  tick : Bool := false

inductive StreamEvent where
  | publish (e : RunEvent)
  | close
  | beginRunAttempt (ctx : Ctx) (generation : ℤ) (env : CallEnv)
  | completeRun (ctx : Ctx) (c : RunCompletion) (env : CallEnv)
  | proceed (env : StreamEnv)
  /-- The context of the call is done. -/
  | abandon

/-- `Publish` for one subscriber : the event is dropped if the channel is full. -/
def Channel.send (e : RunEvent) (ch : Channel) : Channel :=
  if ch.closed then ch
  else
    { queue := if ch.queue.length < Channel.capacity then ch.queue ++ [e] else ch.queue
      closed := e.isTerminal }

namespace Stream

variable (d : Dialect)

/-- The call reads the run. -/
def readRun (s : Stream) (env : StreamEnv) : Except StoreError Run :=
  s.db.readRun env.driver s.reader.ctx s.reader.runId

/-- The reader after the run was read at the start. -/
def started (rd : StreamReader) (r : Run) : StreamReader :=
  { rd with
    generation := metadataGeneration r.metadataMap attemptGenerationKey
    cursorGeneration :=
      if (r.metadataMap.lookup attemptGenerationKey).isSome then
        metadataGeneration r.metadataMap attemptGenerationKey
      else -1
    pc := .replay }

/-- The select over the channel. -/
def receive (rd : StreamReader) (env : StreamEnv) : StreamReader :=
  match rd.channel with
  | none => rd.goto .replay
  | some ch =>
    if env.tick then rd.goto .refreshTick
    else
      match ch.queue with
      | [] => if ch.closed then { rd with channel := none, pc := .replay } else rd
      | e :: queue =>
        StreamReader.consume { rd with channel := some { ch with queue := queue } } env.emitFails e
          none

/-- A step of `replayRunEvents`. -/
def proceed (s : Stream) (env : StreamEnv) : Stream :=
  match s.reader.pc with
  | .subscribe =>
    { s with reader := { s.reader with
        channel := if env.attach then some { closed := s.closed } else none, pc := .start } }
  | .start =>
    match s.readRun env with
    | .error _ => { s with reader := s.reader.goto .returned }
    | .ok r => { s with reader := started s.reader r }
  | .replay =>
    match env.replayError with
    | some _ => { s with reader := s.reader.goto .refreshFailed }
    | none => { s with reader := s.reader.goto (.past (replaySince 0 s.log)) }
  | .past [] => { s with reader := s.reader.goto .refreshReplayed }
  | .past (e :: rest) => { s with reader := s.reader.consume env.emitFails e (some rest) }
  | .completing e q phase rest =>
    let next := q.next d env.toCallEnv s.log s.db phase
    match next.1 with
    | .returned _ (some _) => { s with db := next.2, reader := s.reader.retry rest }
    | .returned result none =>
      { s with
        db := next.2
        reader :=
          if result.accepted then s.reader.finish env.emitFails (.event e)
          else s.reader.goto (.refused e rest) }
    | phase => { s with db := next.2, reader := s.reader.goto (.completing e q phase rest) }
  | .refused e rest =>
    match s.readRun env with
    | .error _ => { s with reader := s.reader.retry rest }
    | .ok r => { s with reader := ((s.reader.refreshed r).mark e).resume rest }
  | .refreshReplayed =>
    match s.readRun env with
    | .error _ => { s with reader := s.reader.goto .wait }
    | .ok r =>
      if r.status.terminal then
        { s with reader := (s.reader.refreshed r).durableEnd env.emitFails r }
      else
        let pc := if s.reader.channel.isSome then .live else .wait
        { s with reader := (s.reader.refreshed r).goto pc }
  | .refreshFailed =>
    match s.readRun env with
    | .error _ => { s with reader := s.reader.goto .wait }
    | .ok r =>
      if r.status.terminal then
        { s with reader := (s.reader.refreshed r).durableEnd env.emitFails r }
      else { s with reader := (s.reader.refreshed r).goto .wait }
  | .wait => { s with reader := s.reader.goto .replay }
  | .live => { s with reader := receive s.reader env }
  | .refreshTick =>
    match s.readRun env with
    | .error _ => { s with reader := s.reader.goto .replay }
    | .ok r =>
      let pc := if r.status.terminal then .replay else .live
      { s with reader := (s.reader.refreshed r).goto pc }
  | .returned => s

def step : StreamEvent → Stream → Stream
  | .publish e, s =>
    { s with
      log := s.log ++ [e]
      closed := s.closed || e.isTerminal
      reader := { s.reader with channel := s.reader.channel.map (Channel.send e) } }
  | .close, s =>
    { s with
      closed := true
      reader := { s.reader with
        channel := s.reader.channel.map fun ch => { ch with closed := true } } }
  | .beginRunAttempt ctx generation env, s =>
    { s with
      db := (beginRunAttempt ctx s.reader.runId generation env.now env.driver s.db).2 }
  | .completeRun ctx c env, s =>
    { s with
      db := (completeRun d ctx { c with runId := s.reader.runId } env.now env.driver s.db).2 }
  | .proceed env, s => s.proceed d env
  | .abandon, s => { s with reader := s.reader.goto .returned }

end Stream

end Runkite
