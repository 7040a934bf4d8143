import Runkite.CompletionAtomic
import Runkite.PermissionBound
import Runkite.RejectedCreate
import Runkite.StreamTruth

/-!
# Reservation holds

A create request places a hold for its run, and the completion of the run, its cancellation or
the rollback of the create releases it. `Reserving` is the world with the table of the holds, the
create requests that are past `placeUsageHold`, and the releases that are in flight.
`holds_track_live_runs` says that with nothing in flight the holds of an agent are the reserved
amount for each of its live runs, if holds are placed while their runs are live, with the amount
of their tenant, and no run is deleted while a call for it is in flight. The amount is looked up
with an empty tenant, and a run that is canceled before its hold is placed keeps the hold
(`holds_not_tracked`).
-/

open Json (Members Number Text Value marshal)

namespace Runkite

open Table Create

/-! ## The reservation config -/

/-- `ReservationAmount`; amounts of money are exact. -/
structure ReservationAmount where
  usdPerRun : ℚ := 0
  tokensPerRun : ℤ := 0
deriving DecidableEq

structure ReservationConfig where
  usdPerRun : ℚ := 0
  tokensPerRun : ℤ := 0
  agents : List (String × ReservationAmount) := []

namespace ReservationConfig

def reservationEnabled (cfg : ReservationConfig) : Bool :=
  0 < cfg.usdPerRun || 0 < cfg.tokensPerRun ||
    cfg.agents.any fun a => 0 < a.2.usdPerRun || 0 < a.2.tokensPerRun

def reservationFor (cfg : ReservationConfig) (tenantId agentId : String) : ReservationAmount :=
  if agentId = "" || cfg.agents.isEmpty then ⟨cfg.usdPerRun, cfg.tokensPerRun⟩
  else (cfg.agents.lookup (tenantId ++ "/" ++ agentId)).getD ⟨cfg.usdPerRun, cfg.tokensPerRun⟩

/-- No amount is negative. -/
def nonnegative (cfg : ReservationConfig) : Bool :=
  0 ≤ cfg.usdPerRun && 0 ≤ cfg.tokensPerRun &&
    cfg.agents.all fun a => 0 ≤ a.2.usdPerRun && 0 ≤ a.2.tokensPerRun

end ReservationConfig

/-! ## The table of the holds -/

structure UsageHold where
  runId : String
  tenantId : String
  agentId : String
  usdHold : ℚ
  tokensHold : ℤ

abbrev Holds := Table UsageHold String UsageHold.runId

def upsertUsageHold (ctx : Ctx) (h : UsageHold) (holds : Holds) : Holds :=
  if h.runId = "" then holds
  else
    let tenantId := if h.tenantId = "" then ctx.tenant else h.tenantId
    holds.upsert { h with tenantId := tenantId }
      (fun old => { h with tenantId := tenantId, runId := old.runId }) fun _ => rfl

def releaseUsageHold (runId : String) (holds : Holds) : Holds :=
  if runId = "" then holds else holds.delete fun h => h.runId = runId

/-- `TenantID` of the run that `createRunCtx` builds : it is not set. -/
def NewRun.tenantId (_ : NewRun) : String := ""

def NewRun.isSimulation (run : NewRun) : Bool :=
  Create.simulationFlag ((run.metadata.getD []).lookup "simulation")

def placeUsageHold (cfg : ReservationConfig) (ctx : Ctx) (run : NewRun) (holds : Holds) : Holds :=
  if !cfg.reservationEnabled || run.isSimulation then holds
  else
    let amount := cfg.reservationFor run.tenantId run.agentId
    if amount.usdPerRun ≤ 0 && amount.tokensPerRun ≤ 0 then holds
    else
      upsertUsageHold ctx ⟨run.runId, run.tenantId, run.agentId, amount.usdPerRun,
        amount.tokensPerRun⟩ holds

/-! ## Finalizations -/

/-- `findRunForRetry` finalizes the run it finds if that was served from the cache. -/
def Response.finalizes : Response → Option String
  | .existing run => if run.isCacheHit && run.status.terminal then some run.runId else none
  | _ => none

/-- The run whose hold the create request releases after this step. -/
def Create.finalizes (srv : Server) (env : Env) (c : Create) (db : Db) : Option String :=
  match c.phase with
  | .arrived => (findRunForRetry srv env c.ctx c.req c.req.threadId db).bind Response.finalizes
  | .cachedFallback _ =>
    (findRunForRetry srv env c.ctx c.req c.threadId db).bind Response.finalizes
  | .cachedReload =>
    match env.query (fetchRun c.ctx c.runId) db, env.finalization with
    | .ok run, none => some run.runId
    | _, _ => none
  | .rollbackRelease _ =>
    match (c.next srv env db).1.phase with
    | .done _ => some c.runId
    | _ => none
  | _ => none

/-- The run that `finalizeCommittedRun` goes on with after a completion. -/
def CompletionResult.finalizes (runId : String) (env : Env) : Except StoreError CompletionResult →
    Option String
  | .ok result => if result.accepted && env.finalization.isNone then some runId else none
  | .error _ => none

/-- The run whose hold the cancellation releases after this step. -/
def Cancellation.finalizes (srv : Server) (env : Env) (c : Cancellation) (db : Db) : Option String :=
  match c.phase, db.getRun { system := true } c.runId with
  | .complete, some run => CompletionResult.finalizes c.runId env
      (completeRun srv.dialect { tenant := run.tenantId } (c.completion env run) env.now env.driver db).1
  | _, _ => none

/-- The run whose hold is released after this step. -/
def World.finalizes (srv : Server) (w : World) : Event → Option String
  | .proceed i env =>
    match w.requests[i]? with
    | some (.create c) => c.finalizes srv env w.db
    | some (.cancel c) => c.finalizes srv env w.db
    | _ => none
  | .completeRun ctx c env => CompletionResult.finalizes c.runId env
      (completeRun srv.dialect ctx c env.now env.driver w.db).1
  | _ => none

/-- The request that makes the step. -/
def Event.owner : Event → Option ℕ
  | .proceed i _ => some i
  | _ => none

/-! ## The world with its holds -/

structure Reserving where
  world : World := {}
  holds : Holds := .empty
  /-- The create requests that are past `placeUsageHold`. -/
  placed : ℕ → Bool := fun _ => false
  /-- The releases in flight, each with the request that makes it, if one does, and the run. -/
  releasing : List (Option ℕ × String) := []

/-- A step of the world, or a release by a call that is not a request of the world. -/
inductive HoldEvent where
  | request (ev : Event)
  | release (k : ℕ)

namespace Reserving

/-- The request has inserted its run and places the hold next. -/
def placing (s : Reserving) (i : ℕ) : Option (Create × NewRun) :=
  match s.world.requests[i]?, s.placed i with
  | some (.create c), false =>
    match c.phase with
    | .enqueue run => some (c, run)
    | _ => none
  | _, _ => none

def release (s : Reserving) (k : ℕ) : Reserving :=
  match s.releasing[k]? with
  | some (_, runId) =>
    { s with holds := releaseUsageHold runId s.holds, releasing := s.releasing.eraseIdx k }
  | none => s

def place (cfg : ReservationConfig) (s : Reserving) (i : ℕ) (c : Create) (run : NewRun) :
    Reserving :=
  { s with
    holds := placeUsageHold cfg c.ctx run s.holds
    placed := Function.update s.placed i true }

/-- A step of the world, and the release that it leads to. -/
def advance (srv : Server) (s : Reserving) (ev : Event) : Reserving :=
  { s with
    world := s.world.step srv ev
    releasing := s.releasing ++ (s.world.finalizes srv ev).toList.map fun runId => (ev.owner, runId) }

/-- A request releases or places a hold before it goes on. -/
def proceed (cfg : ReservationConfig) (srv : Server) (s : Reserving) (i : ℕ) (env : Env) :
    Reserving :=
  match s.releasing.findIdx? (fun entry => entry.1 = some i), s.placing i with
  | some k, _ => s.release k
  | none, some (c, run) => s.place cfg i c run
  | none, none => s.advance srv (.proceed i env)

def step (cfg : ReservationConfig) (srv : Server) : HoldEvent → Reserving → Reserving
  | .request (.proceed i env), s => s.proceed cfg srv i env
  | .request ev, s => s.advance srv ev
  | .release k, s => s.release k

/-- No request is in flight. -/
def quiet (s : Reserving) : Bool :=
  s.world.requests.all Request.answered && s.releasing.isEmpty

/-- The run is pending or running and no simulation. -/
def live (tenantId agentId : String) (r : Run) : Bool :=
  r.tenantId = tenantId && r.agentId = agentId && r.status.active && !Create.isSimulation r

/-- The open holds of a tenant's agent. -/
def openHolds (s : Reserving) (tenantId agentId : String) : List UsageHold :=
  s.holds.rows.filter fun h => h.tenantId = tenantId && h.agentId = agentId

end Reserving

/-- The store answers without an error. -/
def HoldEvent.untroubled : HoldEvent → Bool
  | .request (.proceed _ env) => env.driver.clean && env.finalization.isNone
  | .request (.beginRunAttempt _ _ env) => env.driver.clean && env.finalization.isNone
  | .request (.completeRun _ _ env) => env.driver.clean && env.finalization.isNone
  | _ => true

/-- The phases in which a create request has inserted its run and is not through with it. -/
def Phase.holds : Phase → Bool
  | .cachedReload | .enqueue _ | .rollbackStatus _ | .rollbackRelease _ => true
  | _ => false

namespace Reserving

/-- The run is not live, and no call for it is in flight. -/
def settled (s : Reserving) (runId : String) : Bool :=
  (s.world.db.runs.get? runId).all (fun r => r.status.terminal) &&
  s.releasing.all (fun entry => entry.2 ≠ runId) &&
  s.world.requests.all fun
    | .create c => c.runId ≠ runId || !c.phase.holds
    | _ => true

/-- A hold is placed while its run is live, and with the amount of the run's tenant. -/
def placesInTime (cfg : ReservationConfig) (s : Reserving) (i : ℕ) : Bool :=
  match s.placing i with
  | some (c, run) => c.runId ≠ "" &&
    (s.world.db.runs.get? c.runId).any (fun r => !r.status.terminal) &&
    cfg.reservationFor run.tenantId run.agentId = cfg.reservationFor c.ctx.tenant run.agentId
  | none => true

/-- The runs that a step deletes are settled. -/
def deletesSettled (srv : Server) (s : Reserving) (ev : Event) : Bool :=
  s.world.db.runs.rows.all fun r =>
    ((s.world.step srv ev).db.runs.get? r.runId).isSome || s.settled r.runId

/-- Holds are placed in time, and runs deleted when they are settled. -/
def orderly (cfg : ReservationConfig) (srv : Server) : HoldEvent → Reserving → Bool
  | .request (.proceed i env), s => s.placesInTime cfg i && s.deletesSettled srv (.proceed i env)
  | .request ev, s => s.deletesSettled srv ev
  | .release _, _ => true

end Reserving

/-! ## What steps keep of a run -/

variable {cfg : ReservationConfig} {srv : Server} {s : Reserving} {env : Env} {ev : Event}
  {db db' : Db} {runId : String} {ν μ : Type} {m : Members Number}

theorem Create.simulationFlag_bind (f : ν → Option μ) (norm : Members μ → Members μ)
    (o : Option (Value ν)) : simulationFlag (o.bind (Json.traverse f norm)) = simulationFlag o := by
  rcases o with _ | v
  · rfl
  · cases v with
    | number n => cases h : f n <;> simp [Json.traverse, h, simulationFlag]
    | array vs =>
      cases h : Json.traverseItems f norm vs <;> simp [Json.traverse, h, simulationFlag]
    | object ms =>
      cases h : Json.traverseMembers f norm ms <;> simp [Json.traverse, h, simulationFlag]
    | _ => rfl

theorem simulationFlag_marshal {ms : Members Number} (h : ms.Distinct) {t : Text}
    (ht : marshal (.object ms) = some t) (k : String) :
    simulationFlag (t.member k) = simulationFlag (ms.lookup k) := by
  rw [Json.member_marshal h ht]
  exact simulationFlag_bind _ _ _

theorem simulationFlag_rewrite {raw raw' : Text}
    (h : decodeMetadata raw = some m) {k key : String} {v : Value Number} (hne : k ≠ key)
    (hraw : marshal (.object (Members.insert key v m)) = some raw') :
    simulationFlag (raw'.member k) = simulationFlag (raw.member k) := by
  rw [simulationFlag_marshal ((decoded_of_decodeMetadata h).distinct.insert key v) hraw,
    Json.Members.lookup_insert_of_ne hne, lookup_of_decodeMetadata h]
  exact simulationFlag_bind _ _ _

/-- The row of a run is a simulation if the run is. -/
theorem NewRun.isSimulation_row {run : NewRun} (h : Members.Distinct (run.metadata.getD []))
    (tenantId : String) : Create.isSimulation (run.row tenantId) = run.isSimulation := by
  unfold Create.isSimulation NewRun.isSimulation NewRun.row NewRun.metadataText
  cases hm : run.metadata with
  | none => rfl
  | some metadata =>
    rw [hm] at h
    obtain ⟨t, ht⟩ := Json.exists_marshal (.object metadata)
    simpa [ht] using simulationFlag_marshal h ht "simulation"

/-- The later row of a run : same tenant, agent and simulation, and closed for good. -/
structure Run.Follows (r r' : Run) : Prop where
  tenantId : r'.tenantId = r.tenantId
  agentId : r'.agentId = r.agentId
  simulation : Create.isSimulation r' = Create.isSimulation r
  terminal : r.status.terminal = true → r'.status.terminal = true

theorem RowStep.follows {rolledBack : Prop} {r r' : Run} (h : RowStep rolledBack r r') :
    r.Follows r' := by
  obtain ⟨htenant, -, hagent, -⟩ := h.keeps
  refine ⟨htenant, hagent, ?_, ?_⟩
  · cases h with
    | same | failed => rfl
    | begun now hl ht hraw => exact simulationFlag_rewrite (loaded_ok_iff.1 hl).1 (by decide) hraw
    | completed output error now hl ht hst hraw =>
      exact simulationFlag_rewrite (loaded_ok_iff.1 hl).1 (by decide) hraw
  · intro hterm
    cases h with
    | same => exact hterm
    | begun now hl ht hraw => simp [hterm] at ht
    | completed output error now hl ht hst hraw => exact hst
    | failed => rfl

/-- In every interleaving, a run that is there after a step was there before, with the same tenant,
agent and simulation flag, and is terminal if it was; or a create request inserted it, for its own
tenant and in a thread of that tenant. -/
theorem run_rows_accounted (srv : Server) (evs : List Event) (w : World) :
    Trace.Every (World.step srv) (fun ev w => ∀ runId r', (w.step srv ev).db.runs.get? runId = some r' →
      (∃ r, w.db.runs.get? runId = some r ∧ r.Follows r') ∨
      ∃ ctx run t, w.inserts ev ctx run ∧ run.runId = runId ∧ run.Inserted ctx r' ∧
        w.db.threads.get? run.threadId = some t ∧ t.tenantId = ctx.tenant) evs w := by
  refine Trace.every_of_imp (fun ev w _ runId r' hr' => ?_) (Trace.every_of_mem fun _ _ => trivial)
  cases hr : w.db.runs.get? runId with
  | none => exact .inr ((w.step_writes ev).newRow hr hr')
  | some r => exact .inl ⟨r, rfl, ((w.step_writes ev).rowStep_kept hr hr').follows⟩

/-- The run is there, and terminal. -/
def Db.RunClosed (db : Db) (runId : String) : Prop :=
  ∃ r, db.runs.get? runId = some r ∧ r.status.terminal = true

/-- The run, if it is there, is there afterwards. -/
def KeepsRun (runId : String) (db db' : Db) : Prop :=
  ∀ r, db.runs.get? runId = some r → ∃ r', db'.runs.get? runId = some r' ∧ r.Follows r'

section Keeps

variable {c : RunCompletion}

theorem Db.RunClosed.of_keeps (h : db.RunClosed runId) (hkeeps : KeepsRun runId db db') :
    db'.RunClosed runId := by
  obtain ⟨r, hr, hterm⟩ := h
  obtain ⟨r', hr', hfollows⟩ := hkeeps r hr
  exact ⟨r', hr', hfollows.terminal hterm⟩

theorem Create.next_keeps (c : Create) : KeepsRun runId db (c.next srv env db).2 := by
  intro r hr
  obtain ⟨_, hr', -⟩ := c.next_row srv env hr
  have hwrites : Writes srv (fun _ => True) (c.inserts env) db (c.next srv env db).2 :=
    c.next_writes (fun _ => trivial) fun _ _ h => h
  exact ⟨_, hr', (hwrites.rowStep_kept hr hr').follows⟩

theorem accepted_of_applied {m : Members Number} {status : RunStatus}
    (h : (checkCompletion m status c).applied) :
    (checkCompletion m status c).accepted := by
  obtain ⟨hterm, hgen, hnone, hopen⟩ := checkCompletion_applied.1 h
  simp [checkCompletion, hterm, hgen, hnone, hopen]

theorem finalizes_of_completes {d : Dialect} {ctx : Ctx} {r r' : Run}
    (hclean : env.driver.clean) (hfinal : env.finalization = none)
    (hr : db.runs.get? runId = some r) (hopen : r.status.terminal = false)
    (hr' : (completeRun d ctx c env.now env.driver db).2.runs.get? runId = some r')
    (hclosed : r'.status.terminal) : c.runId = runId ∧ CompletionResult.finalizes runId env
      (completeRun d ctx c env.now env.driver db).1 = some runId := by
  have hne : (completeRun d ctx c env.now env.driver db).2 ≠ db := by
    intro heq
    rw [heq, hr] at hr'
    cases hr'
    simp [hopen] at hclosed
  obtain ⟨-, heq⟩ | ⟨-, _, l, _, _, _, hcomp⟩ :=
    completeRun_cases d ctx env.now env.driver db c
  · exact absurd heq hne
  have hrunId : c.runId = runId := by
    by_contra hother
    rw [hcomp.get?_runs_of_ne (by simpa using Ne.symm hother), hr] at hr'
    cases hr'
    simp [hopen] at hclosed
  refine ⟨hrunId, ?_⟩
  rcases Transaction.transact_cases (completeRunInTx d ctx c env.now) CompletionResult.applied
    env.driver db with ⟨-, e, heq⟩ | ⟨-, result, s', -, -, heq⟩ |
      ⟨-, result, s', hrun, hkeep, heq | ⟨e, hlost, -⟩⟩
  · exact absurd (congrArg Prod.snd heq) hne
  · exact absurd (congrArg Prod.snd heq) hne
  · have haccepted : result.accepted := by
      obtain ⟨_, l, -, -, hres, -⟩ := run_completeRunInTx_ok hrun
      rw [hres] at hkeep ⊢
      exact accepted_of_applied hkeep
    rw [completeRun, heq]
    simp [CompletionResult.finalizes, haccepted, hfinal]
  · simp [Transaction.Driver.clean, hlost] at hclean

end Keeps

/-! ## What the requests in flight stand for -/

/-- The phases in which a create request rolls its run back. -/
def Phase.unwinding : Phase → Bool
  | .rollbackStatus _ | .rollbackRelease _ => true
  | _ => false

/-- The phases after the insertion of the run. -/
def Phase.inserted : Phase → Bool
  | .enqueue _ | .rollbackStatus _ | .rollbackRelease _ | .done _ => true
  | _ => false

/-- The run of a create request that has inserted it. -/
def Create.Stands (c : Create) (db : Db) : Prop :=
  match c.phase with
  | .enqueue run => run.runId = c.runId ∧ ∃ r, db.runs.get? c.runId = some r ∧
      r.tenantId = c.ctx.tenant ∧ r.agentId = run.agentId ∧
      Create.isSimulation r = run.isSimulation
  | .rollbackStatus _ => ∃ r, db.runs.get? c.runId = some r ∧ r.tenantId = c.ctx.tenant
  | .rollbackRelease _ | .cachedReload => db.RunClosed c.runId
  | _ => True

variable {c : Create}

theorem Create.stands_of_not_holds (h : c.phase.holds = false) (db : Db) : c.Stands db := by
  unfold Create.Stands
  cases hphase : c.phase <;> first | trivial | simp [hphase, Phase.holds] at h

theorem Create.Stands.of_keeps (h : c.Stands db) (hkeeps : KeepsRun c.runId db db') :
    c.Stands db' := by
  unfold Create.Stands at h ⊢
  split at h
  · obtain ⟨hrunId, r, hr, htenant, hagent, hsim⟩ := h
    obtain ⟨r', hr', hfollows⟩ := hkeeps r hr
    exact ⟨hrunId, r', hr', hfollows.tenantId.trans htenant, hfollows.agentId.trans hagent,
      hfollows.simulation.trans hsim⟩
  · obtain ⟨r, hr, htenant⟩ := h
    obtain ⟨r', hr', hfollows⟩ := hkeeps r hr
    exact ⟨r', hr', hfollows.tenantId.trans htenant⟩
  · exact h.of_keeps hkeeps
  · exact h.of_keeps hkeeps
  · trivial

theorem Create.next_insert (srv : Server) (db : Db) (hclean : env.driver.clean) {parent : Option Run}
    (hphase : c.phase = .insert parent) :
    (∃ e, c.next srv env db = (c.goto (.insertFallback e), db)) ∨
      (c.next srv env db).1 = c.goto (.enqueue (c.newRun env parent)) ∧
      (c.next srv env db).2.runs.get? c.runId = some ((c.newRun env parent).row c.ctx.tenant) := by
  simp only [next, hphase]
  obtain ⟨e, he⟩ | ⟨t, _, -, hins, heq | ⟨e, hlost, -⟩⟩ :=
    createRunAdmitted_cases c.ctx (c.newRun env parent) env.caps env.driver db
  · rw [he]
    exact .inl ⟨e, rfl⟩
  · rw [heq]
    exact .inr ⟨rfl, (get?_of_insert hins c.runId).trans (if_pos rfl)⟩
  · simp [Transaction.Driver.clean, hlost] at hclean

theorem Db.get?_updateRunStatus {ctx : Ctx} {runId : String} {r : Run}
    (hr : db.runs.get? runId = some r) (hsees : ctx.sees r.tenantId) (now : String) :
    (db.updateRunStatus ctx runId .error none "enqueue failed" now).runs.get? runId =
      some { r with
        status := .error, output := some .empty, errorMsg := "enqueue failed", updatedAt := now } := by
  rw [Db.updateRunStatus, Db.get?_updateRuns, hr]
  simp [key_of_get? hr, hsees]

theorem Create.next_rollbackStatus (srv : Server) (db : Db) (hclean : env.driver.clean) {retried : Bool}
    (hphase : c.phase = .rollbackStatus retried) : c.next srv env db =
      (c.goto (.rollbackRelease false),
        db.updateRunStatus c.ctx c.runId .error none "enqueue failed" env.now) := by
  simp only [next, hphase]
  rw [Env.write_clean hclean (fun db => ((), db.updateRunStatus c.ctx c.runId .error none
    "enqueue failed" env.now))]
  rfl

theorem Create.closed_of_served (hphase : c.phase = .cached)
    (hnext : (c.next srv env db).1 = c.goto .cachedReload) :
    (c.next srv env db).2.RunClosed c.runId := by
  simp only [next, hphase, tryServeCached] at hnext ⊢
  split at hnext
  · rename_i output _ _
    obtain ⟨e, he⟩ | ⟨-, -, -, r, hr, hstatus⟩ := createCachedRun_stores srv.dialect c.ctx env.now
      env.driver db (c.cachedRun env output) env.caps
    · rw [he] at hnext
      simp [goto] at hnext
    · split at hnext
      · rename_i heq
        rw [heq] at hr
        exact ⟨r, hr, by rw [hstatus]; rfl⟩
      · simp [goto] at hnext
  · simp [goto] at hnext

/-- A step of a create request, with the driver clean. -/
theorem Create.Stands.next (h : c.Stands db) (hclean : env.driver.clean) :
    (c.next srv env db).1.Stands (c.next srv env db).2 := by
  obtain ⟨p, hp, hgoes⟩ | ⟨-, -, hp⟩ := c.next_goes srv env db
  swap
  · rw [hp]
    exact stands_of_not_holds rfl _
  by_cases hholds : p.holds = false
  · rw [hp]
    exact stands_of_not_holds hholds _
  have hkeeps : KeepsRun c.runId db (c.next srv env db).2 := c.next_keeps
  generalize hphase : c.phase = q at hgoes
  cases hgoes with
  | servedCached => exact hp ▸ closed_of_served hphase hp
  | @inserted parent hrow =>
    obtain ⟨e, he⟩ | ⟨-, hget⟩ := next_insert srv db hclean hphase
    · simp [he, goto] at hp
    · rw [hp]
      refine ⟨rfl, _, hget, rfl, rfl, NewRun.isSimulation_row ?_ _⟩
      exact (Create.inserts_run (c := c) ⟨rfl, .inl ⟨parent, hphase, rfl⟩⟩).2.2.2.2.1
  | notEnqueued =>
    unfold Create.Stands at h
    simp only [hphase] at h
    obtain ⟨-, r, hr, htenant, -⟩ := h
    obtain ⟨r', hr', hfollows⟩ := hkeeps r hr
    rw [hp]
    exact ⟨r', hr', hfollows.tenantId.trans htenant⟩
  | statusAgain | releaseAgain =>
    have hstands := h.of_keeps hkeeps
    unfold Create.Stands at hstands
    simp only [hphase] at hstands
    rw [hp]
    exact hstands
  | statusWritten =>
    unfold Create.Stands at h
    simp only [hphase] at h
    obtain ⟨r, hr, htenant⟩ := h
    rw [hp, next_rollbackStatus srv db hclean hphase]
    have hget := Db.get?_updateRunStatus hr (by simp [Ctx.sees, htenant] : c.ctx.sees r.tenantId)
      env.now
    exact ⟨_, hget, rfl⟩
  | _ => simp [Phase.holds] at hholds

/-! ## The invariant -/

/-- The run of the hold is live. -/
def UsageHold.Live (h : UsageHold) (db : Db) : Prop :=
  ∃ r, db.runs.get? h.runId = some r ∧ r.tenantId = h.tenantId ∧ r.agentId = h.agentId ∧
    Create.isSimulation r = false ∧ r.status.terminal = false

/-- A create request rolls the run back. -/
def World.Unwinds (w : World) (runId : String) : Prop :=
  ∃ (i : ℕ) (c : Create), w.requests[i]? = some (.create c) ∧ c.runId = runId ∧
    c.phase.unwinding = true

namespace Reserving

/-- A create request places the hold of the run next. -/
def Unplaced (s : Reserving) (runId : String) : Prop :=
  ∃ i c run, s.placing i = some (c, run) ∧ c.runId = runId

/-- A call in flight releases the hold of the run. -/
def Released (s : Reserving) (runId : String) : Prop :=
  (∃ entry ∈ s.releasing, entry.2 = runId) ∨ s.world.Unwinds runId

/-- A hold is that of a live run, or about to be released, and a live run has a hold, or is about
to get one. -/
structure Sound (cfg : ReservationConfig) (s : Reserving) : Prop where
  stands : ∀ {i : ℕ} {c : Create}, s.world.requests[i]? = some (.create c) → c.Stands s.world.db
  placed : ∀ {i : ℕ}, s.placed i = true →
    ∃ c : Create, s.world.requests[i]? = some (.create c) ∧ c.phase.inserted = true
  amount : ∀ {runId h}, s.holds.get? runId = some h → runId ≠ "" ∧
    cfg.reservationFor h.tenantId h.agentId = ⟨h.usdHold, h.tokensHold⟩
  held : ∀ {runId h}, s.holds.get? runId = some h → h.Live s.world.db ∨ s.Released runId
  covered : ∀ {runId r}, s.world.db.runs.get? runId = some r → r.status.terminal = false →
    Create.isSimulation r = false → cfg.reservationFor r.tenantId r.agentId ≠ {} →
    (∃ h, s.holds.get? runId = some h) ∨ s.Unplaced runId
  releasing : ∀ {entry}, entry ∈ s.releasing → s.world.db.RunClosed entry.2

theorem placing_eq_some {i : ℕ} {c : Create} {run : NewRun} : s.placing i = some (c, run) ↔
    s.world.requests[i]? = some (.create c) ∧ s.placed i = false ∧ c.phase = .enqueue run := by
  unfold placing
  constructor
  · intro h
    split at h
    · rename_i c' hc hplaced
      split at h
      · rename_i run' hphase
        obtain ⟨rfl, rfl⟩ := Prod.mk.inj (Option.some.inj h)
        exact ⟨hc, hplaced, hphase⟩
      · cases h
    · cases h
  · rintro ⟨hc, hplaced, hphase⟩
    simp [hc, hplaced, hphase]

theorem settled_iff : s.settled runId ↔
    (∀ r, s.world.db.runs.get? runId = some r → r.status.terminal) ∧
    (∀ entry ∈ s.releasing, entry.2 ≠ runId) ∧
    ∀ c, Request.create c ∈ s.world.requests → c.runId = runId → c.phase.holds = false := by
  simp only [settled, Bool.and_eq_true, List.all_eq_true, decide_eq_true_eq, and_assoc]
  refine and_congr ?_ (and_congr Iff.rfl ?_)
  · cases s.world.db.runs.get? runId <;> simp
  · constructor
    · intro h c hc hrunId
      simpa [hrunId] using h _ hc
    · intro h r hr
      cases r with
      | create c =>
        by_cases hrunId : c.runId = runId
        · simp [h c hr hrunId]
        · simp [hrunId]
      | _ => rfl

/-! ### Releases -/

variable {holds : Holds}

theorem get?_releaseUsageHold {k : String} (hk : k ≠ "") :
    (releaseUsageHold runId holds).get? k = if k = runId then none else holds.get? k := by
  unfold releaseUsageHold
  split_ifs with hempty hkey hkey
  · exact absurd (hkey.trans hempty) hk
  · rfl
  all_goals
    rw [get?_delete]
    cases h : holds.get? k with
    | none => rfl
    | some => simp [key_of_get? h, hkey]

theorem get?_of_releaseUsageHold {k : String} {h : UsageHold}
    (hget : (releaseUsageHold runId holds).get? k = some h) : holds.get? k = some h := by
  unfold releaseUsageHold at hget
  split_ifs at hget
  · exact hget
  · rw [get?_delete] at hget
    exact (Option.filter_eq_some_iff.1 hget).1

theorem Sound.release (h : s.Sound cfg) (k : ℕ) : (s.release k).Sound cfg := by
  unfold Reserving.release
  cases hk : s.releasing[k]? with
  | none => exact h
  | some entry =>
    obtain ⟨_, released⟩ := entry
    have hclosed : s.world.db.RunClosed released := h.releasing (List.mem_of_getElem? hk)
    refine ⟨h.stands, h.placed, fun hget => h.amount (get?_of_releaseUsageHold hget), ?_, ?_, ?_⟩
    · intro runId hold hget
      have hold' := get?_of_releaseUsageHold hget
      have hne : runId ≠ released := by
        rintro rfl
        rw [get?_releaseUsageHold (h.amount hold').1, if_pos rfl] at hget
        cases hget
      refine (h.held hold').imp_right fun hreleased => hreleased.imp_left ?_
      rintro ⟨entry, hentry, heq⟩
      obtain ⟨j, hj⟩ := List.mem_iff_getElem?.1 hentry
      refine ⟨entry, List.mem_eraseIdx_iff_getElem?.2 ⟨j, ?_, hj⟩, heq⟩
      rintro rfl
      cases hk.symm.trans hj
      exact hne heq.symm
    · intro runId r hr hopen hsim hamount
      refine (h.covered hr hopen hsim hamount).imp_left ?_
      rintro ⟨hold, hold'⟩
      have hne : runId ≠ released := by
        rintro rfl
        obtain ⟨_, hr', hterm⟩ := hclosed
        cases hr.symm.trans hr'
        simp [hopen] at hterm
      exact ⟨hold, by rw [get?_releaseUsageHold (h.amount hold').1, if_neg hne, hold']⟩
    · intro entry hentry
      exact h.releasing (List.mem_of_mem_eraseIdx hentry)

/-! ### Placements -/

theorem eq_of_nonpositive {amount : ReservationAmount} (husd : 0 ≤ amount.usdPerRun)
    (htokens : 0 ≤ amount.tokensPerRun) (h : amount.usdPerRun ≤ 0 ∧ amount.tokensPerRun ≤ 0) :
    amount = {} := by
  have husd' := le_antisymm h.1 husd
  have htokens' := le_antisymm h.2 htokens
  cases amount
  simp_all

/-- An amount of the config is not negative, and zero if reservation is not enabled. -/
theorem reservationFor_spec (hcfg : cfg.nonnegative) (tenantId agentId : String) :
    (0 ≤ (cfg.reservationFor tenantId agentId).usdPerRun ∧
      0 ≤ (cfg.reservationFor tenantId agentId).tokensPerRun) ∧
    (cfg.reservationEnabled = false → (cfg.reservationFor tenantId agentId).usdPerRun ≤ 0 ∧
      (cfg.reservationFor tenantId agentId).tokensPerRun ≤ 0) := by
  simp only [ReservationConfig.nonnegative, Bool.and_eq_true, decide_eq_true_eq,
    List.all_eq_true] at hcfg
  simp only [ReservationConfig.reservationEnabled, Bool.or_eq_false_iff, decide_eq_false_iff_not,
    not_lt, List.any_eq_false, Bool.or_eq_true, decide_eq_true_eq, not_or]
  obtain ⟨⟨husd, htokens⟩, hagents⟩ := hcfg
  unfold ReservationConfig.reservationFor
  split_ifs
  · exact ⟨⟨husd, htokens⟩, fun h => h.1⟩
  · cases hlookup : cfg.agents.lookup (tenantId ++ "/" ++ agentId) with
    | none => exact ⟨⟨husd, htokens⟩, fun h => h.1⟩
    | some amount =>
      obtain ⟨entry, hmem, rfl⟩ : ∃ entry ∈ cfg.agents, entry.2 = amount := by
        obtain ⟨_, _, heq, -⟩ := List.lookup_eq_some_iff.1 hlookup
        exact ⟨(_, amount), heq ▸ List.mem_append_right _ List.mem_cons_self, rfl⟩
      exact ⟨hagents entry hmem, fun h => h.2 entry hmem⟩

/-- What `placeUsageHold` does to the holds of a run that is no simulation and has an amount. -/
theorem placeUsageHold_cases (hcfg : cfg.nonnegative) (ctx : Ctx) (run : NewRun)
    (holds : Holds) (hrunId : run.runId ≠ "") : placeUsageHold cfg ctx run holds = holds ∧
      (run.isSimulation ∨ cfg.reservationFor run.tenantId run.agentId = {}) ∨
    run.isSimulation = false ∧ ∀ k, (placeUsageHold cfg ctx run holds).get? k =
      if k = run.runId then some ⟨run.runId, ctx.tenant, run.agentId,
        (cfg.reservationFor run.tenantId run.agentId).usdPerRun,
        (cfg.reservationFor run.tenantId run.agentId).tokensPerRun⟩
      else holds.get? k := by
  obtain ⟨⟨husd, htokens⟩, hdisabled⟩ := reservationFor_spec hcfg run.tenantId run.agentId
  unfold placeUsageHold
  by_cases hsim : run.isSimulation
  · exact .inl ⟨by simp [hsim], .inl hsim⟩
  by_cases henabled : cfg.reservationEnabled = false
  · have hzero := eq_of_nonpositive husd htokens (hdisabled henabled)
    exact .inl ⟨by simp [henabled], .inr hzero⟩
  rw [if_neg (by simp [hsim, henabled])]
  dsimp only
  split_ifs with hskip
  · simp only [Bool.and_eq_true, decide_eq_true_eq] at hskip
    exact .inl ⟨rfl, .inr (eq_of_nonpositive husd htokens hskip)⟩
  · refine .inr ⟨Bool.not_eq_true _ ▸ hsim, fun k => ?_⟩
    have htenant : (if run.tenantId = "" then ctx.tenant else run.tenantId) = ctx.tenant := if_pos rfl
    unfold upsertUsageHold
    simp only [if_neg hrunId, htenant, get?_upsert]
    by_cases hk : k = run.runId
    · rw [if_pos hk, if_pos hk]
      cases hold : holds.get? k with
      | none => rfl
      | some => rw [Option.elim_some, key_of_get? hold, hk]
    · rw [if_neg hk, if_neg hk]

theorem Sound.place (h : s.Sound cfg) (hcfg : cfg.nonnegative) {i : ℕ} {c : Create}
    {run : NewRun} (hplacing : s.placing i = some (c, run))
    (htime : s.placesInTime cfg i) : (s.place cfg i c run).Sound cfg := by
  obtain ⟨hc, _, hphase⟩ := placing_eq_some.1 hplacing
  have hstands := h.stands hc
  simp only [Create.Stands, hphase] at hstands
  obtain ⟨hrunId, r, hr, htenant, hagent, hsim⟩ := hstands
  simp only [placesInTime, hplacing, hr, Bool.and_eq_true, decide_eq_true_eq, Option.any_some,
    Bool.not_eq_true'] at htime
  obtain ⟨⟨hne, hopen⟩, hamount⟩ := htime
  have hother : ∀ {k}, k ≠ c.runId → s.Unplaced k → (s.place cfg i c run).Unplaced k := by
    rintro k hk ⟨j, c', run', hj, rfl⟩
    obtain ⟨hc', hplaced, hphase'⟩ := placing_eq_some.1 hj
    have hji : j ≠ i := by
      rintro rfl
      obtain rfl := Request.create.inj (Option.mem_unique hc hc')
      exact hk rfl
    refine ⟨j, c', run', placing_eq_some.2 ⟨hc', ?_, hphase'⟩, rfl⟩
    simpa [Reserving.place, Function.update_of_ne hji] using hplaced
  have hplaced : ∀ {j}, (s.place cfg i c run).placed j →
      ∃ c' : Create, s.world.requests[j]? = some (.create c') ∧ c'.phase.inserted := by
    intro j hj
    by_cases hji : j = i
    · subst hji
      exact ⟨c, hc, by rw [hphase]; rfl⟩
    · exact h.placed (by simpa [Reserving.place, Function.update_of_ne hji] using hj)
  obtain ⟨hsame, hnone⟩ | ⟨hreal, hget⟩ :=
    placeUsageHold_cases hcfg c.ctx run s.holds (hrunId ▸ hne)
  · -- nothing is reserved for the run
    have hholds : (s.place cfg i c run).holds = s.holds := hsame
    refine ⟨h.stands, hplaced, by rw [hholds]; exact h.amount, by rw [hholds]; exact h.held, ?_,
      h.releasing⟩
    intro k r' hr' hopen' hsim' hamount'
    rw [hholds]
    by_cases hk : k = c.runId
    · subst hk
      cases hr.symm.trans hr'
      rcases hnone with hsimulation | hzero
      · rw [← hsim, hsim'] at hsimulation
        cases hsimulation
      · rw [hamount, ← hagent, ← htenant] at hzero
        exact absurd hzero hamount'
    · exact (h.covered hr' hopen' hsim' hamount').imp_right (hother hk)
  · have hget' : ∀ k, (s.place cfg i c run).holds.get? k = _ := hget
    refine ⟨h.stands, hplaced, ?_, ?_, ?_, h.releasing⟩
    · intro k hold hold'
      rw [hget'] at hold'
      split_ifs at hold' with hk
      · cases hold'
        exact ⟨by rw [hk, hrunId]; exact hne, by rw [← hamount]⟩
      · exact h.amount hold'
    · intro k hold hold'
      rw [hget'] at hold'
      split_ifs at hold' with hk
      · cases hold'
        exact .inl ⟨r, by rw [hrunId]; exact hr, htenant, hagent, hsim.trans hreal, hopen⟩
      · exact h.held hold'
    · intro k r' hr' hopen' hsim' hamount'
      rw [hget']
      split_ifs with hk
      · exact .inl ⟨_, rfl⟩
      · exact (h.covered hr' hopen' hsim' hamount').imp_right (hother (hrunId ▸ hk))

end Reserving

/-! ### Steps of the world -/

variable {w : World}

theorem World.step_proceed {i : ℕ} {r : Request} (srv : Server) (env : Env)
    (hr : w.requests[i]? = some r) :
    (w.step srv (.proceed i env)).db = (r.next srv env w.db).2 := by simp [World.step, hr]

theorem Closed.runClosed {status : RunStatus} (h : Closed runId status db) :
    db.RunClosed runId := by
  obtain ⟨r, hr, hstatus, hterm⟩ := h
  exact ⟨r, hr, by rw [hstatus]; exact hterm⟩

theorem CompletionResult.finalizes_eq_some {id : String}
    {result : Except StoreError CompletionResult} (h : finalizes id env result = some runId) :
    id = runId ∧ ∃ res, result = .ok res ∧ res.accepted := by
  unfold finalizes at h
  split at h
  · split_ifs at h with haccepted
    simp only [Bool.and_eq_true] at haccepted
    exact ⟨Option.some.inj h, _, rfl, haccepted.1⟩
  · cases h

theorem get?_of_findRunForRetry {ctx : Ctx} {req : RunCreate} {threadId : String}
    {run : Run} (h : findRunForRetry srv env ctx req threadId db = some (.existing run)) :
    db.runs.get? run.runId = some run := by
  unfold findRunForRetry at h
  split_ifs at h
  split at h
  · cases h
  · rename_i run' hrun
    have hget := get?_of_getRun (getRun_of_fetchRun (Env.query_ok hrun))
    split at h
    · simp at h
    · split at h
      · simp at h
      · obtain rfl := Response.existing.inj (Option.some.inj h)
        rwa [key_of_get? hget]

theorem Response.finalizes_eq_some {response : Response} (h : response.finalizes = some runId) :
    ∃ run, response = .existing run ∧ run.runId = runId ∧ run.status.terminal := by
  unfold Response.finalizes at h
  split at h
  · rename_i run
    split_ifs at h with hterm
    simp only [Bool.and_eq_true] at hterm
    exact ⟨run, rfl, Option.some.inj h, hterm.2⟩
  · cases h

/-- The run that a create request finalizes is closed. -/
theorem Create.closed_of_finalizes {c : Create} (hstands : c.Stands db)
    (h : c.finalizes srv env db = some runId) : (c.next srv env db).2.RunClosed runId := by
  refine Db.RunClosed.of_keeps ?_ c.next_keeps
  have hretry : ∀ {threadId}, (findRunForRetry srv env c.ctx c.req threadId db).bind
      Response.finalizes = some runId → db.RunClosed runId := by
    intro threadId hbind
    obtain ⟨response, hresponse, hfinal⟩ := Option.bind_eq_some_iff.1 hbind
    obtain ⟨run, rfl, rfl, hterm⟩ := Response.finalizes_eq_some hfinal
    exact ⟨run, get?_of_findRunForRetry hresponse, hterm⟩
  unfold finalizes at h
  unfold Create.Stands at hstands
  cases hphase : c.phase with
  | arrived | cachedFallback =>
    rw [hphase] at h
    exact hretry h
  | cachedReload =>
    rw [hphase] at h hstands
    dsimp only at h hstands
    split at h
    · rename_i run hrun _
      have hget := get?_of_getRun (getRun_of_fetchRun (Env.query_ok hrun))
      rw [← Option.some.inj h, key_of_get? hget]
      exact hstands
    · cases h
  | rollbackRelease =>
    rw [hphase] at h hstands
    dsimp only at h hstands
    split at h
    · exact Option.some.inj h ▸ hstands
    · cases h
  | _ => simp [hphase] at h

/-- The run that a cancellation finalizes is closed. -/
theorem Cancellation.closed_of_finalizes {c : Cancellation}
    (h : c.finalizes srv env db = some runId) : (c.next srv env db).2.RunClosed runId := by
  unfold Cancellation.finalizes at h
  split at h
  · rename_i run hphase hrun
    obtain ⟨rfl, _, hok, haccepted⟩ := CompletionResult.finalizes_eq_some h
    have hnext : (c.next srv env db).2 = (completeRun srv.dialect { tenant := run.tenantId }
        (c.completion env run) env.now env.driver db).2 := by
      simp only [Cancellation.next, hphase]
      exact c.complete_snd hrun
    rw [hnext]
    exact (closed_of_accepted hok haccepted).runClosed
  · cases h

/-- A step that closes a run goes on to finalize it, or rolls it back. -/
theorem World.finalizes_of_closes (hclean : (HoldEvent.request ev).untroubled) {r r' : Run}
    (hr : w.db.runs.get? runId = some r) (hopen : r.status.terminal = false)
    (hr' : (w.step srv ev).db.runs.get? runId = some r') (hclosed : r'.status.terminal) :
    w.finalizes srv ev = some runId ∨ (w.step srv ev).Unwinds runId := by
  have hsame : w.db.runs.get? runId ≠ some r' := by
    intro heq
    cases hr.symm.trans heq
    simp [hopen] at hclosed
  have hdelete : ∀ {p}, (w.db.runs.delete p).get? runId ≠ some r' := by
    intro p heq
    rw [get?_delete] at heq
    exact hsame (Option.filter_eq_some_iff.1 heq).1
  cases ev with
  | create | delete | cancel | copy | queue => exact absurd hr' hsame
  | pruneRuns => exact absurd hr' hdelete
  | beginRunAttempt id generation env =>
    exfalso
    obtain heq | ⟨r₁, l, raw, hr₁, -, -, -, -, hdb⟩ :=
      beginRunAttempt_cases { system := true } env.now env.driver w.db id generation
    · exact hsame (heq ▸ hr')
    · have hr'' := hr'
      simp only [World.step, hdb, Db.get?_updateRuns, hr, Option.map_some] at hr''
      cases hr''
      split_ifs at hclosed
      · simp [RunStatus.terminal] at hclosed
      · simp [hopen] at hclosed
  | completeRun =>
    simp only [HoldEvent.untroubled, Bool.and_eq_true, Option.isNone_iff_eq_none] at hclean
    obtain ⟨rfl, hfinal⟩ := finalizes_of_completes hclean.1 hclean.2 hr hopen hr' hclosed
    exact .inl hfinal
  | proceed i env =>
    simp only [HoldEvent.untroubled, Bool.and_eq_true, Option.isNone_iff_eq_none] at hclean
    cases hreq : w.requests[i]? with
    | none => exact absurd (by simpa [World.step, hreq] using hr') hsame
    | some request =>
      rw [World.step_proceed srv env hreq] at hr'
      cases request with
      | create c =>
        obtain ⟨_, hr₁, rfl | ⟨⟨hrolls, hrunId⟩, -⟩⟩ := c.next_row srv env hr
        · exact absurd (hr.trans (hr₁.symm.trans hr')) hsame
        · right
          obtain ⟨retried, hphase⟩ : ∃ retried, c.phase = .rollbackStatus retried := by
            cases hphase : c.phase <;> simp [hphase, Phase.rollsBack] at hrolls ⊢
          have hnext := next_rollbackStatus srv w.db hclean.1 hphase
          exact ⟨i, _, (World.step_proceed_create srv env hreq).2, by rw [hnext]; exact hrunId,
            by rw [hnext]; rfl⟩
      | delete d =>
        obtain heq | ⟨-, heq⟩ := d.next_snd env w.db
        · exact absurd (heq ▸ hr') hsame
        · exact absurd (heq ▸ hr') hdelete
      | cancel c =>
        obtain heq | ⟨hphase, run, hrun, heq⟩ | ⟨-, heq⟩ := c.next_snd srv env w.db
        · exact absurd (heq ▸ hr') hsame
        · have hr'' : (c.next srv env w.db).2.runs.get? runId = some r' := hr'
          rw [heq] at hr''
          obtain ⟨rfl, hfinal⟩ := finalizes_of_completes hclean.1 hclean.2 hr hopen hr'' hclosed
          left
          simp only [World.finalizes, hreq, Cancellation.finalizes, hphase, hrun]
          exact hfinal
        · exact absurd (heq ▸ hr') hdelete
      | copy c =>
        have hr'' : (c.next env w.db).2.runs.get? runId = some r' := hr'
        obtain heq | ⟨t, threads, -, -, heq⟩ := c.next_snd env w.db <;> rw [heq] at hr'' <;>
          exact absurd hr'' hsame

/-- A request that rolls a run back goes on to do so, or to release the hold. -/
theorem World.Unwinds.step (h : w.Unwinds runId) (srv : Server) (ev : Event) :
    (w.step srv ev).Unwinds runId ∨ w.finalizes srv ev = some runId := by
  obtain ⟨i, c, hc, rfl, hunwinding⟩ := h
  by_cases hown : ∃ env, ev = .proceed i env
  · obtain ⟨env, rfl⟩ := hown
    have hc' := (World.step_proceed_create srv env hc).2
    obtain ⟨p, hp, hgoes⟩ | ⟨hresolve, -⟩ := c.next_goes srv env w.db
    · have hwind : p.unwinding → (w.step srv (.proceed i env)).Unwinds c.runId := by
        intro hunwinds
        exact ⟨i, _, hc', by rw [hp]; rfl, by rw [hp]; exact hunwinds⟩
      generalize hphase : c.phase = q at hgoes hunwinding
      cases hgoes with
      | statusAgain | statusWritten | releaseAgain => exact .inl (hwind rfl)
      | released =>
        right
        simp [World.finalizes, hc, Create.finalizes, hphase, hp, Create.goto]
      | _ => simp [Phase.unwinding] at hunwinding
    · simp [hresolve, Phase.unwinding] at hunwinding
  · exact .inl ⟨i, c, World.step_request_of_ne hc fun env heq => hown ⟨env, heq⟩, rfl, hunwinding⟩

namespace Reserving

variable {r : Run} {tenantId agentId : String}

/-- A step keeps a run, or deletes one that is settled. -/
theorem follows_or_settled (hdeletes : s.deletesSettled srv ev)
    (hr : s.world.db.runs.get? runId = some r) :
    (∃ r', (s.advance srv ev).world.db.runs.get? runId = some r' ∧ r.Follows r') ∨
      (s.advance srv ev).world.db.runs.get? runId = none ∧ s.settled runId := by
  have hwrites := @World.step_writes srv s.world ev
  obtain hnone | ⟨r', hr', hstep⟩ := hwrites.rowStep hr
  · have hgone := List.all_eq_true.1 hdeletes r (get?_eq_some_iff.1 hr).1
    rw [key_of_get? hr, hnone] at hgone
    exact .inr ⟨hnone, by simpa using hgone⟩
  · exact .inl ⟨r', hr', hstep.follows⟩

theorem keeps_of_not_settled (hdeletes : s.deletesSettled srv ev)
    (hsettled : s.settled runId = false) :
    KeepsRun runId s.world.db (s.advance srv ev).world.db := by
  intro r hr
  refine (follows_or_settled hdeletes hr).resolve_right ?_
  simp [hsettled]

/-- A run that a step adds as live is that of a create request that places its hold next. -/
theorem Sound.unplaced_of_new (h : s.Sound cfg) (hclean : (HoldEvent.request ev).untroubled)
    (hnone : s.world.db.runs.get? runId = none)
    (hr : (s.advance srv ev).world.db.runs.get? runId = some r)
    (hopen : r.status.terminal = false) : (s.advance srv ev).Unplaced runId := by
  have hwrites := @World.step_writes srv s.world ev
  obtain ⟨ctx, run, t, ⟨i, env, c, rfl, hc, hins⟩, rfl, -, rfl⟩ | ⟨ctx, run, env, -, heq⟩ :=
    hwrites.newRow_cases hnone hr
  · obtain ⟨rfl, ⟨_, hphase, rfl⟩ | ⟨hphase, _, rfl⟩⟩ := hins
    · simp only [HoldEvent.untroubled, Bool.and_eq_true] at hclean
      obtain ⟨hdb, hc'⟩ := World.step_proceed_create srv env hc
      have hr' : (s.world.step srv (.proceed i env)).db.runs.get? c.runId = some _ := hr
      obtain ⟨e, he⟩ | ⟨hnext, -⟩ := next_insert srv s.world.db hclean.1 hphase
      · rw [hdb, he] at hr'
        exact absurd (hnone.symm.trans hr') (by simp)
      · refine ⟨i, _, _, placing_eq_some.2 ⟨hc', ?_, by rw [hnext]; rfl⟩, by rw [hnext]; rfl⟩
        -- a request that has not inserted its run has not placed the hold
        by_contra hplaced
        obtain ⟨_, hc₁, hinserted⟩ := h.placed (Bool.eq_true_of_not_eq_false hplaced)
        obtain rfl := Request.create.inj (Option.mem_unique hc hc₁)
        simp [hphase, Phase.inserted] at hinserted
    · simp [NewRun.row, cachedRun, RunStatus.terminal] at hopen
  · have hr' : (s.world.step srv ev).db.runs.get? runId = some r := hr
    rw [heq] at hr'
    obtain ⟨-, -, -, -, hterm⟩ := newRow_createCachedRun hnone hr'
    simp [hopen] at hterm

/-- A run that a step goes on to finalize is closed. -/
theorem Sound.closed_of_finalizes (h : s.Sound cfg)
    (hfinal : s.world.finalizes srv ev = some runId) :
    (s.advance srv ev).world.db.RunClosed runId := by
  unfold World.finalizes at hfinal
  split at hfinal
  · rename_i i env
    have hdb : ∀ {r}, s.world.requests[i]? = some r → (s.advance srv (.proceed i env)).world.db =
        (r.next srv env s.world.db).2 := fun hr => World.step_proceed srv env hr
    split at hfinal
    · rename_i c hc
      rw [hdb hc]
      exact closed_of_finalizes (h.stands hc) hfinal
    · rename_i c hc
      rw [hdb hc]
      exact Cancellation.closed_of_finalizes hfinal
    · cases hfinal
  · obtain ⟨rfl, _, hok, haccepted⟩ := CompletionResult.finalizes_eq_some hfinal
    exact (closed_of_accepted hok haccepted).runClosed
  · cases hfinal

theorem Sound.advance_stands (h : s.Sound cfg) (hclean : (HoldEvent.request ev).untroubled)
    (hdeletes : s.deletesSettled srv ev) {j : ℕ} {c' : Create}
    (hc' : (s.advance srv ev).world.requests[j]? = some (.create c')) :
    c'.Stands (s.advance srv ev).world.db := by
  obtain hc | ⟨ctx, req, freshThread, freshRun, now, -, rfl⟩ | ⟨env, c, rfl, hc, rfl⟩ :=
    World.step_requests hc'
  · by_cases hsettled : s.settled c'.runId
    · exact stands_of_not_holds
        ((settled_iff.1 hsettled).2.2 c' (List.mem_of_getElem? hc) rfl) _
    · exact (h.stands hc).of_keeps
        (keeps_of_not_settled hdeletes (Bool.eq_false_of_not_eq_true hsettled))
  · exact stands_of_not_holds rfl _
  · simp only [HoldEvent.untroubled, Bool.and_eq_true] at hclean
    have hdb : (s.advance srv (.proceed j env)).world.db = (c.next srv env s.world.db).2 :=
      (World.step_proceed_create srv env hc).1
    rw [hdb]
    exact (h.stands hc).next hclean.1

theorem Sound.advance_placed (h : s.Sound cfg) {i : ℕ} (hplaced : s.placed i) :
    ∃ c' : Create, (s.advance srv ev).world.requests[i]? = some (.create c') ∧
      c'.phase.inserted := by
  obtain ⟨c, hc, hinserted⟩ := h.placed hplaced
  by_cases hown : ∃ env, ev = .proceed i env
  · obtain ⟨env, rfl⟩ := hown
    refine ⟨_, (World.step_proceed_create srv env hc).2, ?_⟩
    obtain ⟨p, hp, hgoes⟩ | ⟨hresolve, -⟩ := c.next_goes srv env s.world.db
    · rw [hp]
      generalize c.phase = q at hgoes hinserted
      cases hgoes <;> first | rfl | simp [Phase.inserted] at hinserted
    · simp [hresolve, Phase.inserted] at hinserted
  · exact ⟨c, World.step_request_of_ne hc fun env heq => hown ⟨env, heq⟩, hinserted⟩

theorem Unplaced.advance (h : s.Unplaced runId)
    (hplacing : ∀ i env, ev = .proceed i env → s.placing i = none) :
    (s.advance srv ev).Unplaced runId := by
  obtain ⟨i, c, run, hi, rfl⟩ := h
  obtain ⟨hc, hplaced, hphase⟩ := placing_eq_some.1 hi
  have hother : ∀ env, ev ≠ .proceed i env := by
    rintro env rfl
    rw [hplacing i env rfl] at hi
    cases hi
  exact ⟨i, c, run, placing_eq_some.2 ⟨World.step_request_of_ne hc hother, hplaced, hphase⟩, rfl⟩

theorem released_of_finalizes (h : s.world.finalizes srv ev = some runId) :
    (s.advance srv ev).Released runId :=
  .inl ⟨(ev.owner, runId), by simp [Reserving.advance, h], rfl⟩

theorem Released.advance (h : s.Released runId) : (s.advance srv ev).Released runId := by
  obtain ⟨entry, hentry, heq⟩ | hunwinds := h
  · exact .inl ⟨entry, List.mem_append_left _ hentry, heq⟩
  · obtain hunwinds' | hfinal := hunwinds.step srv ev
    · exact .inr hunwinds'
    · exact released_of_finalizes hfinal

/-- A step of the world. -/
theorem Sound.advance (h : s.Sound cfg) (hclean : (HoldEvent.request ev).untroubled)
    (hdeletes : s.deletesSettled srv ev)
    (hplacing : ∀ i env, ev = .proceed i env → s.placing i = none) :
    (s.advance srv ev).Sound cfg where
  stands := h.advance_stands hclean hdeletes
  placed := h.advance_placed
  amount := h.amount
  held := by
    intro runId hold hget
    obtain ⟨r, hr, htenant, hagent, hsim, hopen⟩ | hreleased := h.held hget
    · obtain ⟨r', hr', hfollows⟩ | ⟨-, hsettled⟩ := follows_or_settled hdeletes hr
      · by_cases hclosed : r'.status.terminal
        · rw [← key_of_get? hget]
          obtain hfinal | hunwinds := World.finalizes_of_closes hclean hr hopen hr' hclosed
          · exact .inr (released_of_finalizes hfinal)
          · exact .inr (.inr hunwinds)
        · exact .inl ⟨r', hr', hfollows.tenantId.trans htenant, hfollows.agentId.trans hagent,
            hfollows.simulation.trans hsim, Bool.eq_false_of_not_eq_true hclosed⟩
      · have hterm := (settled_iff.1 hsettled).1 r hr
        simp [hopen] at hterm
    · exact .inr hreleased.advance
  covered := by
    intro runId r' hr' hopen' hsim' hamount'
    cases hr : s.world.db.runs.get? runId with
    | none => exact .inr (h.unplaced_of_new hclean hr hr' hopen')
    | some r =>
      obtain ⟨_, hr'', hfollows⟩ | ⟨hnone, -⟩ := follows_or_settled hdeletes hr
      · cases hr'.symm.trans hr''
        have hopen : r.status.terminal = false := by
          by_contra hclosed
          simp [hfollows.terminal (Bool.eq_true_of_not_eq_false hclosed)] at hopen'
        rw [hfollows.simulation] at hsim'
        rw [hfollows.tenantId, hfollows.agentId] at hamount'
        exact (h.covered hr hopen hsim' hamount').imp_right fun hunplaced => hunplaced.advance hplacing
      · rw [hnone] at hr'
        cases hr'
  releasing := by
    intro entry hentry
    obtain hold | hnew := List.mem_append.1 hentry
    · refine (h.releasing hold).of_keeps (keeps_of_not_settled hdeletes ?_)
      by_contra hsettled
      exact (settled_iff.1 (Bool.eq_true_of_not_eq_false hsettled)).2.1 entry hold rfl
    · obtain ⟨_, hfinal, rfl⟩ := List.mem_map.1 hnew
      exact h.closed_of_finalizes (Option.mem_toList.1 hfinal)

theorem Sound.step (h : s.Sound cfg) (hcfg : cfg.nonnegative) {ev : HoldEvent}
    (hclean : ev.untroubled) (horderly : orderly cfg srv ev s) :
    (s.step cfg srv ev).Sound cfg := by
  cases ev with
  | release k => exact h.release k
  | request ev =>
    by_cases hproceed : ∃ i env, ev = .proceed i env
    · obtain ⟨i, env, rfl⟩ := hproceed
      simp only [orderly, Bool.and_eq_true] at horderly
      show (s.proceed cfg srv i env).Sound cfg
      unfold Reserving.proceed
      split
      · exact h.release _
      · rename_i c run _ hplacing
        exact h.place hcfg hplacing horderly.1
      · rename_i hplacing
        refine h.advance hclean horderly.2 fun j env' heq => ?_
        obtain ⟨rfl, -⟩ := Event.proceed.inj heq
        exact hplacing
    · have hstep : s.step cfg srv (.request ev) = s.advance srv ev := by
        cases ev <;> first | rfl | exact absurd ⟨_, _, rfl⟩ hproceed
      have hdeletes : s.deletesSettled srv ev := by
        cases ev <;> first | exact horderly | exact absurd ⟨_, _, rfl⟩ hproceed
      rw [hstep]
      exact h.advance hclean hdeletes fun i env heq => absurd ⟨i, env, heq⟩ hproceed

theorem Sound.initial {db : Db} (hdb : db.runs.rows = []) :
    ({ world := { db := db } } : Reserving).Sound cfg where
  stands h := by simp at h
  placed h := by simp at h
  amount h := by simp at h
  held h := by simp at h
  covered h := by
    have hmem := (get?_eq_some_iff.1 h).1
    simp [hdb] at hmem
  releasing h := by simp at h

theorem Sound.held_of_quiet (h : s.Sound cfg) (hquiet : s.quiet) {hold : UsageHold}
    (hget : s.holds.get? runId = some hold) : hold.Live s.world.db := by
  simp only [quiet, Bool.and_eq_true, List.all_eq_true, List.isEmpty_iff] at hquiet
  obtain ⟨hanswered, hnone⟩ := hquiet
  refine (h.held hget).resolve_right ?_
  rintro (⟨entry, hentry, -⟩ | ⟨i, c, hc, -, hunwinding⟩)
  · simp [hnone] at hentry
  · have hdone := hanswered _ (List.mem_of_getElem? hc)
    simp only [Request.answered] at hdone
    split at hdone
    · rename_i hphase
      simp [hphase, Phase.unwinding] at hunwinding
    · cases hdone

theorem live_iff : live tenantId agentId r ↔
    r.tenantId = tenantId ∧ r.agentId = agentId ∧ r.status.terminal = false ∧
      isSimulation r = false := by
  simp only [live, Bool.and_eq_true, decide_eq_true_eq, Bool.not_eq_true', and_assoc]
  cases r.status <;> simp [RunStatus.active, RunStatus.terminal]

theorem Sound.length_openHolds (h : s.Sound cfg) (hquiet : s.quiet)
    (hamount : cfg.reservationFor tenantId agentId ≠ {}) :
    (s.openHolds tenantId agentId).length = s.world.db.runs.count (live tenantId agentId) := by
  have hperm : ((s.openHolds tenantId agentId).map UsageHold.runId).Perm
      ((s.world.db.runs.rows.filter (live tenantId agentId)).map Run.runId) := by
    refine (List.perm_ext_iff_of_nodup ?_ ?_).2 fun runId => ?_
    · exact s.holds.nodup.sublist (List.filter_sublist.map _)
    · exact s.world.db.runs.nodup.sublist (List.filter_sublist.map _)
    simp only [openHolds, List.mem_map, List.mem_filter, Bool.and_eq_true, decide_eq_true_eq,
      live_iff]
    constructor
    · rintro ⟨hold, ⟨hmem, rfl, rfl⟩, rfl⟩
      obtain ⟨r, hr, htenant, hagent, hsim, hopen⟩ :=
        h.held_of_quiet hquiet (mem_iff_get?.1 hmem)
      obtain ⟨hrow, hkey⟩ := get?_eq_some_iff.1 hr
      exact ⟨r, ⟨hrow, htenant, hagent, hopen, hsim⟩, hkey⟩
    · rintro ⟨r, ⟨hrow, rfl, rfl, hopen, hsim⟩, rfl⟩
      have hr := mem_iff_get?.1 hrow
      obtain ⟨hold, hget⟩ : ∃ hold, s.holds.get? r.runId = some hold := by
        simp only [quiet, Bool.and_eq_true, List.all_eq_true] at hquiet
        refine (h.covered hr hopen hsim hamount).resolve_right ?_
        rintro ⟨i, c, run, hi, -⟩
        obtain ⟨hc, -, hphase⟩ := placing_eq_some.1 hi
        have hdone := hquiet.1 _ (List.mem_of_getElem? hc)
        simp [Request.answered, hphase] at hdone
      obtain ⟨_, hr', htenant, hagent, -, -⟩ := h.held_of_quiet hquiet hget
      rw [key_of_get? hget] at hr'
      cases hr.symm.trans hr'
      obtain ⟨hmem, hkey⟩ := get?_eq_some_iff.1 hget
      exact ⟨hold, ⟨hmem, htenant.symm, hagent.symm⟩, hkey⟩
  have hlength := hperm.length_eq
  rw [List.length_map, List.length_map] at hlength
  rw [hlength, count, List.countP_eq_length_filter]

/-- With no request in flight, the open holds of a tenant's agent are the reserved amount for each
of its live runs, if each hold is placed while its run is live, with the amount of the run's tenant,
and no run is deleted while a call for it is in flight. -/
theorem holds_track_live_runs (cfg : ReservationConfig) (hcfg : cfg.nonnegative = true)
    (srv : Server) (db : Db) (hdb : db.runs.rows = []) (evs : List HoldEvent)
    (hclean : ∀ ev ∈ evs, ev.untroubled = true)
    (horderly : Trace.Every (step cfg srv) (fun ev s => orderly cfg srv ev s = true) evs
      { world := { db := db } })
    (hquiet : (Trace.run (step cfg srv) evs { world := { db := db } }).quiet = true)
    (tenantId agentId : String) :
    let s := Trace.run (step cfg srv) evs { world := { db := db } }
    ((s.openHolds tenantId agentId).map UsageHold.usdHold).sum =
        (cfg.reservationFor tenantId agentId).usdPerRun *
          s.world.db.runs.count (live tenantId agentId) ∧
      ((s.openHolds tenantId agentId).map UsageHold.tokensHold).sum =
        (cfg.reservationFor tenantId agentId).tokensPerRun *
          s.world.db.runs.count (live tenantId agentId) := by
  have hstep : ∀ ev s, orderly cfg srv ev s ∧ ev.untroubled → s.Sound cfg →
      (step cfg srv ev s).Sound cfg := fun ev s hev hs => hs.step hcfg hev.2 hev.1
  have hsound : (Trace.run (step cfg srv) evs { world := { db := db } }).Sound cfg :=
    Trace.invariant hstep (Trace.every_and horderly (Trace.every_of_mem hclean)) (.initial hdb)
  intro s
  have heach : ∀ hold ∈ s.openHolds tenantId agentId,
      cfg.reservationFor tenantId agentId = ⟨hold.usdHold, hold.tokensHold⟩ := by
    intro hold hmem
    simp only [openHolds, List.mem_filter, Bool.and_eq_true, decide_eq_true_eq] at hmem
    obtain ⟨hmem, rfl, rfl⟩ := hmem
    exact (hsound.amount (mem_iff_get?.1 hmem)).2
  have husd := List.sum_eq_card_nsmul ((s.openHolds tenantId agentId).map UsageHold.usdHold)
    (cfg.reservationFor tenantId agentId).usdPerRun (List.forall_mem_map.2 fun hold hmem => by
      rw [heach hold hmem])
  have htokens := List.sum_eq_card_nsmul ((s.openHolds tenantId agentId).map UsageHold.tokensHold)
    (cfg.reservationFor tenantId agentId).tokensPerRun (List.forall_mem_map.2 fun hold hmem => by
      rw [heach hold hmem])
  rw [husd, htokens, List.length_map, List.length_map, nsmul_eq_mul, nsmul_eq_mul, mul_comm,
    mul_comm (Nat.cast _)]
  by_cases hamount : cfg.reservationFor tenantId agentId = {}
  · simp [hamount]
  · rw [hsound.length_openHolds hquiet hamount]
    exact ⟨rfl, rfl⟩

/-! ## Histories -/

/-- A run of the agent `a` is created : the last but one step of the request places the hold, and
the last one enqueues the run. -/
def inserting : List HoldEvent :=
  .request (.create {} { agentId := "a" } "t" "r" "") :: List.replicate 7 (.request (.proceed 0 {}))

def enqueuing : List HoldEvent := List.replicate 2 (.request (.proceed 0 {}))

/-- The run is canceled, and its hold released. -/
def canceling : List HoldEvent :=
  .request (.cancel {} "r" false) :: List.replicate 4 (.request (.proceed 1 {}))

theorem holds_track_live_runs_created :
    let cfg : ReservationConfig := { usdPerRun := 1 / 2, tokensPerRun := 10 }
    let s := Trace.run (step cfg {}) (inserting ++ enqueuing) {}
    s.world.db.runs.count (live "default" "a") = 1 ∧
      ((s.openHolds "default" "a").map UsageHold.usdHold).sum = (cfg.reservationFor "default"
        "a").usdPerRun * s.world.db.runs.count (live "default" "a") := by
  refine ⟨by decide +kernel, ?_⟩
  exact (holds_track_live_runs _ (by decide +kernel) {} default rfl (inserting ++ enqueuing)
    (by decide +kernel) (by decide +kernel) (by decide +kernel) "default" "a").1

/-- The amount that is configured for the agent of a tenant is not reserved for its runs, since it
is looked up with an empty tenant; and a run that is canceled before its hold is placed leaves the
hold behind. -/
theorem holds_not_tracked :
    (let cfg : ReservationConfig := { usdPerRun := 1, agents := [("default/a", ⟨2, 0⟩)] }
      let s := Trace.run (step cfg {}) (inserting ++ enqueuing) {}
      (inserting ++ enqueuing).all HoldEvent.untroubled = true ∧ s.quiet = true ∧
        cfg.reservationFor "default" "a" = ⟨2, 0⟩ ∧
        s.world.db.runs.count (live "default" "a") = 1 ∧
        (s.openHolds "default" "a").map UsageHold.usdHold = [1]) ∧
    let s := Trace.run (step { usdPerRun := 1 } {}) (inserting ++ canceling ++ enqueuing) {}
    (inserting ++ canceling ++ enqueuing).all HoldEvent.untroubled = true ∧ s.quiet = true ∧
      s.world.db.runs.count (live "default" "a") = 0 ∧
      (s.openHolds "default" "a").map UsageHold.usdHold = [1] := by decide +kernel

end Reserving

end Runkite
