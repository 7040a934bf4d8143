import Runkite.Completion
import Runkite.Latest

/-!
# Run events and the completion of a run from them

The events a runner publishes are stamped by the bridge with the generation of its attempt and
retained by the broker in the order of their arrival. `completeRunResult` of the API completes a
run : it reads the run, replays the retained events for the final output, commits the completion in
one transaction of the store and finalizes it. A call is modelled as its requests to the store and
the broker, one step each, so that other calls and publishes can come between them.
-/

open Json (Members Number Text Value marshal unmarshalMap)
open Transaction (Driver query)

namespace Runkite

/-! ## Events -/

structure RunEvent where
  generation : ℤ
  eventId : String
  seq : ℤ
  method : String
  data : Text

namespace RunEvent

def isTerminal (e : RunEvent) : Bool := e.method = "end" || e.method = "error"

/-- The stamp that `StreamEvents` puts on an event : the generation of the message it came in, not
the one the event claims. -/
def stamped (generation : ℤ) (e : RunEvent) : RunEvent :=
  { e with
    generation := generation
    eventId := if 1 < generation then e.eventId ++ ":g" ++ toString generation else e.eventId }

end RunEvent

/-- `Replay` of the broker after a sequence number. -/
def replaySince (since : ℤ) (log : List RunEvent) : List RunEvent := log.filter fun e => since < e.seq

/-! ## Decoding event data -/

/-- Case folding as far as it concerns the field names below. -/
def foldChar (c : Char) : Char :=
  if c = 'ſ' then 's' else if c = 'K' then 'k' else c.toLower

/-- The decoder matches keys with field names up to case. -/
def matchesField (name key : String) : Bool := key.toList.map foldChar = name.toList

/-- A string field of a decoded struct : the last of its members, `null` leaves it as it is, and any
other type is an error. -/
def stringField (name : String) (ms : Members Decimal) : Option String :=
  ms.foldlM (fun acc m =>
    if matchesField name m.1 then
      match m.2 with
      | .string s => some s
      | .null => some acc
      | _ => none
    else some acc) ""

/-- The `status` and `message` of a terminal event's data, `none` if it does not decode. -/
def decodeTerminal : Text → Option (String × String)
  | .document .null => some ("", "")
  | .document (.object ms) => do
    let status ← stringField "status" ms
    let message ← stringField "message" ms
    return (status, message)
  | _ => none

/-- The `usage` of a values event's data : the outer `none` is a decoding error, the inner one a
nil map. A repeated member is decoded into the map that is there. -/
def decodeUsage : Text → Option (Option (Members Number))
  | .document .null => some none
  | .document (.object ms) =>
    ms.foldlM (fun acc m =>
      if matchesField "usage" m.1 then
        (unmarshalMap Json.decodeNumber (.document m.2)).map fun decoded =>
          decoded.map (Members.override (acc.getD []))
      else some acc) none
  | _ => none

def RunStatus.ofString : String → Option RunStatus
  | "pending" => some .pending
  | "running" => some .running
  | "error" => some .error
  | "success" => some .success
  | "timeout" => some .timeout
  | "interrupted" => some .interrupted
  | _ => none

/-! ## Calls of `completeRunResult` -/

/-- What a caller asks for. A status that is none of the known ones is not terminal either. -/
structure CompletionRequest where
  cancelCurrentAttempt : Bool := false
  runnerKind : String := ""
  replayOnly : Bool := false
  runId : String
  generation : ℤ := 0
  status : RunStatus
  error : String := ""

inductive CompletionPhase where
  | read
  | replay (tenantId : String) (c : RunCompletion)
  /-- With the events that were replayed. -/
  | commit (tenantId : String) (c : RunCompletion) (replayed : List RunEvent)
  | reread (tenantId : String) (result : CompletionResult)
  | finalize (result : CompletionResult)
  | returned (result : CompletionResult) (error : Option StoreError)

structure CompletionCall where
  request : CompletionRequest
  phase : CompletionPhase := .read

/-- What a step of a call depends on besides the store and the broker. -/
structure CallEnv where
  now : String := ""
  driver : Driver StoreError := {}
  /-- `Replay` fails, or does not answer in time. -/
  replayError : Option StoreError := none
  /-- The metadata of the run's agent. -/
  agent : Except StoreError (Members Number) := .ok []
  /-- A step of the finalization fails. -/
  finalizeError : Option StoreError := none

/-- `GetRun` of the store. -/
def Db.readRun (db : Db) (driver : Driver StoreError) (ctx : Ctx) (runId : String) :
    Except StoreError Run :=
  query driver (fun db : Db =>
    match db.getRun ctx runId with
    | some r => .ok r
    | none => .error (.notFound "run" runId)) db

/-- The metadata that `GetRun` hands on; a decoding error is ignored. -/
def Run.metadataMap (r : Run) : Members Number := (decodeMetadata r.metadata).getD []

/-- The runner kind a run belongs to. -/
def Run.ownKind (r : Run) (agent : Except StoreError (Members Number)) : Except StoreError String :=
  let kind :=
    match r.metadataMap.lookup "run_manifest" with
    | some (.object manifest) => Members.string manifest "runner_kind"
    | _ => ""
  if kind ≠ "" then .ok kind
  else
    match agent with
    | .error e => .error e
    | .ok agent =>
      let kind := agent.string "runner_kind"
      .ok (if kind = "" then "python-langgraph" else kind)

/-- The call returns an error and no result. -/
def CompletionPhase.fail (e : StoreError) : CompletionPhase := .returned ⟨false, false⟩ (some e)

/-- A values event of an attempt. -/
def RunEvent.isValues (generation : ℤ) (e : RunEvent) : Bool :=
  e.method = "values" && e.generation = generation

namespace CompletionRequest

variable (q : CompletionRequest)

/-- The completion as it is before the replay. -/
def completion (generation : ℤ) : RunCompletion where
  cancelCurrentAttempt := q.cancelCurrentAttempt
  runId := q.runId
  generation := generation
  status := q.status
  error := q.error

/-- After the run was read : what does not need the transaction is decided here. -/
def afterRead (r : Run) : CompletionPhase :=
  if q.replayOnly then
    if (r.metadataMap.lookup completionGenerationKey).isSome &&
        metadataGeneration r.metadataMap completionGenerationKey = q.generation &&
        r.status = q.status then .finalize ⟨true, false⟩
    else .returned ⟨false, false⟩ none
  else if !q.status.terminal then .fail (.message "invalid terminal run status")
  else if q.cancelCurrentAttempt then
    .replay r.tenantId (q.completion (metadataGeneration r.metadataMap attemptGenerationKey))
  else
    let checked := checkCompletion r.metadataMap r.status (q.completion q.generation)
    if checked.applied then .replay r.tenantId (q.completion q.generation)
    else if checked.accepted then .finalize checked
    else .returned checked none

/-- The run has to belong to the runner kind of a bridge. -/
def checkKind (agent : Except StoreError (Members Number)) (r : Run) : Except StoreError Unit :=
  if q.runnerKind = "" then .ok ()
  else
    match r.ownKind agent with
    | .error e => .error e
    | .ok kind =>
      if kind = q.runnerKind then .ok () else .error (.message "run belongs to another runner kind")

end CompletionRequest

/-- The usage that the attempt delivered : the last that decodes, from the end of the log. -/
def deliveredUsage (generation : ℤ) (events : List RunEvent) : Option (Members Number) :=
  events.reverse.findSome? fun e =>
    if e.isValues generation then (decodeUsage e.data).join else none

/-- After the replay. -/
def afterReplay (tenantId : String) (c : RunCompletion) (replayError : Option StoreError)
    (events : List RunEvent) : CompletionPhase :=
  if c.cancelCurrentAttempt then
    match replayError with
    | some _ => .commit tenantId c []
    | none => .commit tenantId { c with cancelUsage := deliveredUsage c.generation events } events
  else
    match replayError, events.reverse.find? (RunEvent.isValues c.generation) with
    | some e, _ => .fail e
    | none, none => .commit tenantId c events
    | none, some event =>
      match unmarshalMap Json.decodeNumber event.data with
      | none => .fail .json
      | some values => .commit tenantId { c with values := values } events

/-- The next request of a call. -/
def CompletionRequest.next (d : Dialect) (env : CallEnv) (log : List RunEvent) (db : Db)
    (q : CompletionRequest) : CompletionPhase → CompletionPhase × Db
  | .read =>
    match db.readRun env.driver { system := true } q.runId with
    | .error e => (.fail e, db)
    | .ok r =>
      match q.checkKind env.agent r with
      | .error e => (.fail e, db)
      | .ok _ => (q.afterRead r, db)
  | .replay tenantId c => (afterReplay tenantId c env.replayError (replaySince 0 log), db)
  | .commit tenantId c _ =>
    match completeRun d { tenant := tenantId } c env.now env.driver db with
    | (.error e, db') => (.fail e, db')
    | (.ok result, db') =>
      (if result.accepted then .reread tenantId result else .returned result none, db')
  | .reread tenantId result =>
    match db.readRun env.driver { tenant := tenantId } q.runId with
    | .error e => (.returned result (some e), db)
    | .ok _ => (.finalize result, db)
  | .finalize result => (.returned result env.finalizeError, db)
  | .returned result error => (.returned result error, db)

end Runkite
