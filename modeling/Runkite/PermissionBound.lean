import Runkite.KillDrain
import Runkite.Permissions
import Runkite.ThreadExclusive

/-!
# What a caller's permissions let it do

A caller sends requests and, over the connections it opened, frames. Its runs are created and
cancelled by requests in flight, in any order with those of others (`World`), and a request of
the caller carries the permissions that the admission gate finds in its context. `effects`
records what the caller did : the runs that its requests created, cancelled or deleted, by
comparing the rows before and after each of their steps, the threads it edited or deleted, and its
governance decisions and lookups.

The middleware asks for "read" to open a connection, and no check follows when a frame cancels a
run. It asks for "governance:decide" to look up an action with `GET`, but for "read" with `HEAD`,
which the mux hands to the same handler (`reader_cancels_run`). Without these two, every effect is
one that the permissions allow (`effects_permitted`).
-/

open Json (Value)
open Strings (trimSpace)

namespace Runkite

/-! ## Effects -/

inductive ClientEffect where
  | runCreated (agentId : String)
  | runCancelled (runId : String)
  | runDeleted (runId : String)
  | threadEdited (threadId : String)
  | threadDeleted (threadId : String)
  | decided
  | lookedUp (actionId : String)
deriving DecidableEq, Repr

/-- What the permissions have to hold for an effect. A run is bound to its agent where the id of
the agent has no outer spaces. -/
def ClientEffect.Permitted (permissions : Permissions) : ClientEffect → Prop
  | .runCreated agentId => trimSpace agentId = agentId → MayRun permissions agentId
  | .runCancelled _ | .runDeleted _ | .threadEdited _ | .threadDeleted _ => MayWrite permissions
  | .decided | .lookedUp _ => MayDecide permissions

/-- What became of a run. -/
def change (db db' : Db) (runId : String) : List ClientEffect :=
  match db.runs.get? runId, db'.runs.get? runId with
  | none, none => []
  | none, some r => [.runCreated r.agentId]
  | some _, none => [.runDeleted runId]
  | some r, some r' =>
    if r'.status = .interrupted && r.status ≠ .interrupted then [.runCancelled runId] else []

/-- What became of the runs that are there before or after a step. -/
def changes (db db' : Db) : List ClientEffect :=
  ((db.runs.rows ++ db'.runs.rows).map Run.runId).dedup.flatMap (change db db')

/-! ## Requests and frames -/

/-- A command of a frame, or of `POST /threads/{id}/commands`. -/
inductive Command where
  | runStart (agentId : String) (input : Option (Value Binary64.Decimal))
  | inputRespond
  | runCancel (runId : String)
  | unknown (method : String)

/-- A request of the caller, with what its handler depends on. -/
structure ClientRequest where
  method : Method
  target : List String
  ctx : Ctx := {}
  body : RunCreate := {}
  /-- `action=rollback`. -/
  rollback : Bool := false
  command : Command := .unknown ""
  /-- The tool call of an MCP message : the run to create, and the context and the permissions that
  its session was opened with. -/
  toolCall : Option (RunCreate × Ctx × Permissions) := none
  /-- The runs that the drain of a kill switch comes to. -/
  drained : List Run := []
  /-- The body decodes, and the store does what the handler asks. -/
  carriedOut : Bool := true
  freshThread : String := ""
  freshRun : String := ""
  env : Env := {}

/-- An open connection, with the request's context. -/
structure Socket where
  ctx : Ctx
  threadId : String
  simulation : Bool
  identity : Permissions

structure Portal where
  world : World := {}
  /-- The requests in flight that are the caller's, with the permissions in their context. -/
  mine : ℕ → Option Permissions := fun _ => none
  sockets : List Socket := []
  effects : List ClientEffect := []

inductive ClientEvent where
  | http (request : ClientRequest)
  /-- A frame on one of the connections. -/
  | frame (socket : ℕ) (command : Command) (freshRun : String) (env : Env)
  /-- A cancellation of the caller comes to a run of the delegation tree. -/
  | cascade (i : ℕ) (run : Run)
  /-- A request in flight makes its next call, or someone else does something. -/
  | world (ev : Event)

/-- The run that `inputRespondCommandCore` finds. -/
def latestRun (ctx : Ctx) (threadId : String) (db : Db) : Option Run :=
  ((db.runs.rows.filter fun r => ctx.sees r.tenantId && r.threadId = threadId).insertionSort
    fun a b => a.before b = true).head?

/-- The run of a "run.start" command. -/
def Socket.start (socket : Socket) (agentId : String) (input : Option (Value Binary64.Decimal)) :
    RunCreate where
  threadId := socket.threadId
  agentId := agentId
  input := some (input.getD .null)
  simulation := socket.simulation

/-- The run of an "input.respond" command. -/
def Socket.resume (socket : Socket) (interrupted : Run) : RunCreate where
  threadId := socket.threadId
  agentId := interrupted.agentId
  resume := true
  simulation := socket.simulation

namespace Portal

/-- Put a request of the caller in flight. -/
def accept (r : Request) (identity : Permissions) (s : Portal) : Portal :=
  { s with
    world := s.world.accept r
    mine := fun i => if i = s.world.requests.length then some identity else s.mine i }

def createRun (ctx : Ctx) (req : RunCreate) (freshThread freshRun now : String)
    (identity : Permissions) (s : Portal) : Portal :=
  s.accept (.create (.arrive ctx req freshThread freshRun now)) identity

def record (request : ClientRequest) (e : ClientEffect) (s : Portal) : Portal :=
  if request.carriedOut then { s with effects := s.effects ++ [e] } else s

/-- `runStartCommandCore` and `inputRespondCommandCore`. -/
def command (socket : Socket) (cmd : Command) (freshRun : String) (env : Env) (s : Portal) :
    Portal :=
  match cmd with
  | .runStart agentId input =>
    s.createRun socket.ctx (socket.start agentId input) "" freshRun env.now socket.identity
  | .inputRespond =>
    match env.query (fun db => .ok (latestRun socket.ctx socket.threadId db)) s.world.db with
    | .ok (some run) =>
      if run.status = .interrupted then
        s.createRun socket.ctx (socket.resume run) "" freshRun env.now socket.identity
      else s
    | _ => s
  | _ => s

/-- `verifyRunThread` and what follows it. -/
def onThread (request : ClientRequest) (threadId runId : String) (r : Request)
    (identity : Permissions) (s : Portal) : Portal :=
  match request.env.query (fetchRun request.ctx runId) s.world.db with
  | .ok run => if run.threadId = threadId then s.accept r identity else s
  | .error _ => s

/-- The connection that a request to a thread opens, or the context of its command. -/
def socketOf (request : ClientRequest) (threadId : String) (identity : Permissions) : Socket :=
  ⟨request.ctx, threadId, request.body.simulation, identity⟩

/-- The handlers. -/
def handle (request : ClientRequest) (handler : Handler) (args : List String)
    (identity : Permissions) (s : Portal) : Portal :=
  let create (req : RunCreate) : Portal :=
    s.createRun request.ctx req request.freshThread request.freshRun request.env.now identity
  let cancel (ctx : Ctx) (runId : String) : Request :=
    .cancel { ctx := ctx, runId := runId, rollback := request.rollback }
  match handler, args with
  | .governanceDecide, _ => s.record request .decided
  | .governanceGetAction, [actionId] => s.record request (.lookedUp actionId)
  | .deleteThread, [threadId] => s.record request (.threadDeleted threadId)
  | .patchThread, [threadId] => s.record request (.threadEdited threadId)
  | .updateThreadState, [threadId] => s.record request (.threadEdited threadId)
  | .createThreadRun, [threadId] => create { request.body with threadId := threadId }
  | .cancelThreadRun, [threadId, runId] =>
    s.onThread request threadId runId (cancel request.ctx runId) identity
  | .deleteThreadRun, [threadId, runId] =>
    s.onThread request threadId runId (.delete { ctx := request.ctx, runId := runId }) identity
  | .createBackgroundRun, _ => create request.body
  | .deleteRun, [runId] => s.accept (.delete { ctx := request.ctx, runId := runId }) identity
  | .cancelRun, [runId] => s.accept (cancel request.ctx runId) identity
  | .threadCommand, [threadId] =>
    match request.env.query (fetchThread request.ctx threadId) s.world.db with
    | .ok _ => s.command (socketOf request threadId identity) request.command request.freshRun
        request.env
    | .error _ => s
  | .threadWebSocket, [threadId] =>
    match request.env.query (fetchThread request.ctx threadId) s.world.db with
    | .ok _ =>
      -- the upgrade is refused for other methods
      if request.method = .get then
        { s with sockets := s.sockets ++ [socketOf request threadId identity] }
      else s
    | .error _ => s
  | .mcp, _ =>
    match request.method, request.toolCall with
    | .post, some (req, ctx, owner) =>
      s.createRun ctx req request.freshThread request.freshRun request.env.now owner
    | _, _ => s
  | .adminCreateThreadRun, [threadId] => create { request.body with threadId := threadId }
  | .adminCancelRun, [runId] =>
    s.accept (cancel { request.ctx with system := true } runId) identity
  | .adminDeleteThread, [threadId] => s.record request (.threadDeleted threadId)
  | .adminCreateKillSwitch, _ =>
    request.drained.foldl (fun s run =>
      s.accept (.cancel (.single { request.ctx with system := true } run)) identity) s
  | _, _ => s

/-- The agent check of the gate, and the error that `CheckBeforeRun` makes of a denial. -/
def missingPermission (identity : Permissions) (agentId : String) : Option StoreError :=
  if canRunAgent identity agentId then none
  else some (.message ("run denied by preflight hook: missing permission " ++
    agentRunPermission agentId))

/-- The gate refuses a request of the caller if the permissions in its context do not cover the
agent that the run will have. -/
def gated (srv : Server) (s : Portal) : Event → Event
  | .proceed i env =>
    match s.mine i, s.world.requests[i]? with
    | some identity, some (.create c) => .proceed i { env with
        refusal := env.refusal.or
          (missingPermission identity (srv.route env.rand env.sums c.ctx.tenant c.req.agent).1) }
    | _, _ => .proceed i env
  | ev => ev

/-- The step is one of a request of the caller. -/
def own (s : Portal) : Event → Bool
  | .proceed i _ => (s.mine i).isSome
  | _ => false

def step (srv : Server) (strict : Bool) (permissions : Permissions) : ClientEvent → Portal → Portal
  | .http request, s =>
    match serve strict permissions request.method request.target with
    | some (handler, args, identity) => s.handle request handler args identity
    | none => s
  | .frame n cmd freshRun env, s =>
    match s.sockets[n]? with
    | none => s
    | some socket =>
      match cmd with
      | .runCancel runId => s.accept (.cancel { ctx := socket.ctx, runId := runId }) socket.identity
      | _ => s.command socket cmd freshRun env
  | .cascade i run, s =>
    match s.mine i, s.world.requests[i]? with
    | some identity, some (.cancel c) => s.accept (.cancel (.single c.ctx run)) identity
    | _, _ => s
  | .world ev, s =>
    let world := s.world.step srv (s.gated srv ev)
    { s with
      world := world
      effects := s.effects ++ if s.own ev then changes s.world.db world.db else [] }

end Portal

/-- A caller that may not write sends no `run.cancel` frame, and one that may not decide does not
look up an action with a method other than `GET`. -/
def ClientEvent.meets (permissions : Permissions) : ClientEvent → Bool
  | .http request =>
    match dispatch request.method request.target with
    | some (.governanceGetAction, _) => request.method = .get || MayDecide permissions
    | _ => true
  | .frame _ (.runCancel _) _ _ => MayWrite permissions
  | _ => true

/-! ## What a step of a request does to the runs -/

variable {e : ClientEffect} {srv : Server} {env : Env} {permissions : Permissions} {db db' : Db}
  {runId : String}

/-- A run was created, cancelled or deleted. -/
theorem mem_changes (h : e ∈ changes db db') :
    (∃ runId r, db.runs.get? runId = none ∧ db'.runs.get? runId = some r ∧
      e = .runCreated r.agentId) ∨
    (∃ runId r r', db.runs.get? runId = some r ∧ db'.runs.get? runId = some r' ∧
      r'.status = .interrupted ∧ r.status ≠ .interrupted ∧ e = .runCancelled runId) ∨
    ∃ runId r, db.runs.get? runId = some r ∧ db'.runs.get? runId = none ∧ e = .runDeleted runId := by
  obtain ⟨runId, -, he⟩ := List.mem_flatMap.1 h
  unfold change at he
  split at he
  · cases he
  · rename_i r hnone hr
    exact .inl ⟨runId, r, hnone, hr, List.mem_singleton.1 he⟩
  · rename_i r hr hnone
    exact .inr (.inr ⟨runId, r, hr, hnone, List.mem_singleton.1 he⟩)
  · rename_i r r' hr hr'
    split_ifs at he with hstatus
    · simp only [Bool.and_eq_true, decide_eq_true_eq] at hstatus
      exact .inr (.inl ⟨runId, r, r', hr, hr', hstatus.1, hstatus.2, List.mem_singleton.1 he⟩)
    · cases he

theorem Create.next_row (srv : Server) (env : Env) (c : Create) {r : Run}
    (hr : db.runs.get? runId = some r) : ∃ r', (c.next srv env db).2.runs.get? runId = some r' ∧
      (r' = r ∨ (c.phase.rollsBack ∧ c.runId = runId) ∧ r'.status = .error) := by
  have hstores := c.next_stores srv env db
  generalize c.phase = p at hstores ⊢
  generalize (c.next srv env db).2 = db' at hstores ⊢
  cases hstores with
  | cached output =>
    exact ⟨r, rowStep_createCachedRun hr srv.dialect c.ctx (c.cachedRun env output) env, .inl rfl⟩
  | insert ht hins => exact ⟨r, Table.get?_kept_of_insert hins hr, .inl rfl⟩
  | rollbackStatus =>
    rw [Db.updateRunStatus, Db.get?_updateRuns, hr]
    refine ⟨_, rfl, ?_⟩
    dsimp only
    split_ifs with hown
    · simp only [Bool.and_eq_true, decide_eq_true_eq] at hown
      exact .inr ⟨⟨rfl, by rw [← hown.1, Table.key_of_get? hr]⟩, rfl⟩
    · exact .inl rfl
  | _ => exact ⟨r, hr, .inl rfl⟩

theorem Create.mem_changes_next (c : Create) (he : e ∈ changes db (c.next srv env db).2) :
    c.phase.admitted ∧ e = .runCreated c.req.agentId := by
  obtain ⟨runId, r, hnone, hr, rfl⟩ | ⟨runId, r, _, hr, hr', hstatus, hopen, -⟩ |
    ⟨runId, r, hr, hnone, -⟩ := mem_changes he
  · have hw : Writes srv (fun _ => True) (c.inserts env) db (c.next srv env db).2 :=
      c.next_writes (fun _ => trivial) fun _ _ h => h
    obtain ⟨_, _, -, hins, -, hinserted, -⟩ := hw.newRow hnone hr
    obtain ⟨-, -, hagent, -⟩ := Create.inserts_run hins
    have hadmitted : c.phase.admitted := by
      obtain ⟨-, ⟨_, hphase, -⟩ | ⟨hphase, -⟩⟩ := hins <;> rw [hphase] <;> rfl
    exact ⟨hadmitted, by rw [hinserted.agentId, hagent]⟩
  · obtain ⟨r₁, hr₁, rfl | ⟨-, herror⟩⟩ := c.next_row srv env hr
    · cases hr'.symm.trans hr₁
      exact absurd hstatus hopen
    · cases hr'.symm.trans hr₁
      rw [herror] at hstatus
      cases hstatus
  · obtain ⟨_, hr₁, -⟩ := c.next_row srv env hr
    rw [hnone] at hr₁
    cases hr₁

/-! ## The requests of the caller -/

/-- Past the gate, a create request is for an agent that the gate lets the caller run. -/
def Create.Permitted (permissions : Permissions) (c : Create) : Prop :=
  c.phase.admitted = true → MayWrite permissions ∨ canRunAgent permissions c.req.agentId = true

/-- A request that the caller may have in flight. -/
def Request.Permitted (permissions : Permissions) : Request → Prop
  | .create c => c.Permitted permissions
  | _ => MayWrite permissions

/-- What holds of the caller's requests, connections and effects. The permissions in the context of
a request are the caller's, except in an MCP session that somebody else opened, which takes a caller
that may write. -/
structure Portal.Bounded (permissions : Permissions) (s : Portal) : Prop where
  effects : ∀ e ∈ s.effects, e.Permitted permissions
  sockets : ∀ socket ∈ s.sockets, socket.identity = permissions
  inFlight : ∀ i identity, s.mine i = some identity → i < s.world.requests.length
  identity : ∀ i identity, s.mine i = some identity →
    identity = permissions ∨ MayWrite permissions
  requests : ∀ i identity r, s.mine i = some identity → s.world.requests[i]? = some r →
    r.Permitted permissions

variable {w : World} {ev : Event} {s : Portal} {identity : Permissions}

theorem World.length_requests_le (w : World) (ev : Event) :
    w.requests.length ≤ (w.step srv ev).requests.length := by
  cases ev with
  | proceed =>
    simp only [World.step]
    split
    · exact le_rfl
    · exact (List.length_set).ge
  | _ => simp [World.step, World.accept]

/-- The gate is passed once, with the agent that the run will have. -/
theorem Create.Permitted.next {c : Create} (h : c.Permitted permissions)
    (hgate : env.refusal = none → MayWrite permissions ∨
      canRunAgent permissions (srv.route env.rand env.sums c.ctx.tenant c.req.agent).1) :
    (c.next srv env db).1.Permitted permissions := by
  obtain ⟨p, hp, hgoes⟩ | ⟨-, hrefusal, hp⟩ := c.next_goes srv env db
  · rw [hp]
    exact fun hadmitted => h (hgoes.admitted hadmitted)
  · rw [hp]
    exact fun _ => hgate hrefusal

theorem Request.Permitted.next {r : Request} (h : r.Permitted permissions)
    (hgate : ∀ c, r = .create c → env.refusal = none → MayWrite permissions ∨
      canRunAgent permissions (srv.route env.rand env.sums c.ctx.tenant c.req.agent).1) :
    (r.next srv env db).1.Permitted permissions := by
  cases r with
  | create c => exact Create.Permitted.next h (hgate c rfl)
  | delete | cancel | copy => exact h

theorem Portal.exists_gated (srv : Server) (s : Portal) (i : ℕ) (env : Env) :
    ∃ env', s.gated srv (.proceed i env) = .proceed i env' := by
  unfold Portal.gated
  dsimp only
  split <;> exact ⟨_, rfl⟩

/-- Where the gate refuses nothing, the permissions in the context cover the agent. -/
theorem Portal.canRunAgent_of_gated {j : ℕ} {c : Create}
    (h : s.gated srv ev = .proceed j env) (hmine : s.mine j = some identity)
    (hc : s.world.requests[j]? = some (.create c)) (hrefusal : env.refusal = none) :
    canRunAgent identity (srv.route env.rand env.sums c.ctx.tenant c.req.agent).1 := by
  cases ev with
  | proceed i env₀ =>
    obtain ⟨env', henv'⟩ := s.exists_gated srv i env₀
    obtain ⟨rfl, rfl⟩ : i = j ∧ env' = env := by simpa [henv'] using h
    simp only [Portal.gated, hmine, hc] at h
    obtain rfl : _ = env' := (Event.proceed.inj h).2
    rw [Option.or_eq_none_iff] at hrefusal
    have hmissing := hrefusal.2
    unfold Portal.missingPermission at hmissing
    split_ifs at hmissing with hrun
    exact hrun
  | _ => cases h

namespace Portal.Bounded

variable (h : s.Bounded permissions)
include h

theorem accept {r : Request}
    (hidentity : identity = permissions ∨ MayWrite permissions) (hr : r.Permitted permissions) :
    (s.accept r identity).Bounded permissions where
  effects := h.effects
  sockets := h.sockets
  inFlight i id hi := by
    simp only [Portal.accept] at hi
    split_ifs at hi with heq
    · simp [heq, Portal.accept, World.accept]
    · have hlt := h.inFlight i id hi
      simp only [Portal.accept, World.accept, List.length_append, List.length_singleton]
      omega
  identity i id hi := by
    simp only [Portal.accept] at hi
    split_ifs at hi with heq
    · rwa [← Option.some.inj hi]
    · exact h.identity i id hi
  requests i id r' hi hr' := by
    simp only [Portal.accept] at hi
    simp only [Portal.accept, World.accept] at hr'
    split_ifs at hi with heq
    · rw [heq, List.getElem?_concat_length] at hr'
      rwa [← Option.some.inj hr']
    · rw [List.getElem?_append_left (h.inFlight i id hi)] at hr'
      exact h.requests i id r' hi hr'

theorem createRun (ctx : Ctx) (req : RunCreate)
    (freshThread freshRun now : String) (hidentity : identity = permissions ∨ MayWrite permissions) :
    (s.createRun ctx req freshThread freshRun now identity).Bounded permissions :=
  h.accept hidentity fun hadmitted => by simp [Create.arrive, Phase.admitted] at hadmitted

theorem record (request : ClientRequest)
    (he : e.Permitted permissions) : (s.record request e).Bounded permissions := by
  unfold Portal.record
  split_ifs
  · refine { h with effects := fun e' he' => ?_ }
    rcases List.mem_append.1 he' with hold | hnew
    · exact h.effects e' hold
    · rwa [List.mem_singleton.1 hnew]
  · exact h

theorem command {socket : Socket}
    (hsocket : socket.identity = permissions) (cmd : Command) (freshRun : String) (env : Env) :
    (s.command socket cmd freshRun env).Bounded permissions := by
  unfold Portal.command
  split
  · exact h.createRun _ _ _ _ _ (.inl hsocket)
  · split
    · split_ifs
      · exact h.createRun _ _ _ _ _ (.inl hsocket)
      · exact h
    · exact h
  · exact h

theorem onThread (request : ClientRequest) (threadId runId : String)
    {r : Request} (hidentity : identity = permissions ∨ MayWrite permissions)
    (hr : r.Permitted permissions) :
    (s.onThread request threadId runId r identity).Bounded permissions := by
  unfold Portal.onThread
  split
  · split_ifs
    · exact h.accept hidentity hr
    · exact h
  · exact h

theorem drain (hidentity : identity = permissions ∨ MayWrite permissions)
    (hwrite : MayWrite permissions) (ctx : Ctx) (runs : List Run) : (runs.foldl (fun s run =>
      s.accept (.cancel (.single ctx run)) identity) s).Bounded permissions := by
  induction runs generalizing s with
  | nil => exact h
  | cons run runs ih => exact ih (h.accept hidentity hwrite)

/-- A handler that is reached by a caller that holds what it needs. -/
theorem handle (request : ClientRequest) {handler : Handler} (args : List String)
    (hpermitted : handler.Permitted permissions request.method)
    (hlookup : handler = .governanceGetAction → request.method = .get ∨ MayDecide permissions) :
    (s.handle request handler args permissions).Bounded permissions := by
  unfold Portal.handle
  split
  · exact h.record request hpermitted
  · exact h.record request ((hlookup rfl).elim hpermitted id)
  · exact h.record request hpermitted
  · exact h.record request hpermitted
  · exact h.record request hpermitted
  · exact h.createRun _ _ _ _ _ (.inl rfl)
  · exact h.onThread request _ _ (.inl rfl) hpermitted
  · exact h.onThread request _ _ (.inl rfl) hpermitted
  · exact h.createRun _ _ _ _ _ (.inl rfl)
  · exact h.accept (.inl rfl) hpermitted
  · exact h.accept (.inl rfl) hpermitted
  · split
    · exact h.command rfl _ _ _
    · exact h
  · split
    · split_ifs
      · refine { h with sockets := fun socket hsocket => ?_ }
        rcases List.mem_append.1 hsocket with hold | hnew
        · exact h.sockets socket hold
        · rw [List.mem_singleton.1 hnew]
          rfl
      · exact h
    · exact h
  · split
    · rename_i hmethod _
      exact h.createRun _ _ _ _ _ (.inr (hpermitted hmethod))
    · exact h
  · exact h.createRun _ _ _ _ _ (.inl rfl)
  · exact h.accept (.inl rfl) (.inr hpermitted)
  · exact h.record request (.inr hpermitted)
  · exact h.drain (.inl rfl) (.inr hpermitted) _ _
  · exact h

/-- A step of a request of the caller. -/
theorem permitted_changes (hne : permissions ≠ []) {i : ℕ} (hmine : s.mine i = some identity)
    (he : e ∈ changes s.world.db (s.world.step srv (.proceed i env)).db) :
    e.Permitted permissions := by
  by_cases hwrite : MayWrite permissions
  · obtain ⟨_, r, -, -, rfl⟩ | ⟨_, _, _, -, -, -, -, rfl⟩ | ⟨_, _, -, -, rfl⟩ := mem_changes he
    · exact fun _ => hwrite.imp_right .inl
    · exact hwrite
    · exact hwrite
  have hlt := h.inFlight i identity hmine
  have hr := List.getElem?_eq_getElem hlt
  have hpermitted := h.requests i identity _ hmine hr
  generalize s.world.requests[i] = r at hr hpermitted
  cases r with
  | create c =>
    simp only [World.step, hr, Request.next, Prod.map, id] at he
    obtain ⟨hadmitted, rfl⟩ := c.mem_changes_next he
    exact fun htrim =>
      mayRun_of_canRunAgent hne htrim ((hpermitted hadmitted).resolve_left hwrite)
  | delete | cancel | copy => exact absurd hpermitted hwrite

theorem world (hne : permissions ≠ []) (strict : Bool) (ev : Event) :
    (s.step srv strict permissions (.world ev)).Bounded permissions where
  effects e he := by
    simp only [Portal.step] at he
    rcases List.mem_append.1 he with hold | hnew
    · exact h.effects e hold
    · split_ifs at hnew with hown
      · cases ev with
        | proceed i env =>
          obtain ⟨identity, hmine⟩ := Option.isSome_iff_exists.1 hown
          obtain ⟨_, henv'⟩ := s.exists_gated srv i env
          rw [henv'] at hnew
          exact h.permitted_changes hne hmine hnew
        | _ => cases hown
      · cases hnew
  sockets := h.sockets
  inFlight i identity hmine :=
    (h.inFlight i identity hmine).trans_le (s.world.length_requests_le _)
  identity := h.identity
  requests j identity r' hmine hr' := by
    obtain hsame | ⟨hlate, -⟩ | ⟨env, r, hev, hr, rfl⟩ := World.request_step hr'
    · exact h.requests j identity r' hmine hsame
    · exact absurd (h.inFlight j identity hmine) hlate.not_gt
    · refine (h.requests j identity r hmine hr).next fun c hc hrefusal => ?_
      subst hc
      have hrun := Portal.canRunAgent_of_gated hev hmine hr hrefusal
      obtain rfl | hwrite := h.identity j identity hmine
      · exact .inr hrun
      · exact .inl hwrite

theorem step (hne : permissions ≠ []) {strict : Bool} {ev : ClientEvent}
    (hmeets : ev.meets permissions) :
    (s.step srv strict permissions ev).Bounded permissions := by
  cases ev with
  | http request =>
    simp only [Portal.step]
    split
    · rename_i handler args identity hserve
      obtain ⟨rfl, hpermitted⟩ := permitted_of_serve hserve hne
      refine h.handle request args hpermitted ?_
      rintro rfl
      obtain ⟨-, hdispatch⟩ := dispatch_of_serve hserve
      simpa [ClientEvent.meets, hdispatch] using hmeets
    · exact h
  | frame n cmd freshRun env =>
    simp only [Portal.step]
    split
    · exact h
    · rename_i socket hsocket
      have hidentity := h.sockets socket (List.mem_of_getElem? hsocket)
      split
      · have hwrite : MayWrite permissions := of_decide_eq_true hmeets
        exact h.accept (.inl hidentity) hwrite
      · exact h.command hidentity _ _ _
  | cascade i run =>
    simp only [Portal.step]
    split
    · rename_i identity c hmine hc
      have hwrite : MayWrite permissions := h.requests i identity _ hmine hc
      exact h.accept (h.identity i identity hmine) hwrite
    · exact h
  | world ev => exact h.world hne strict ev

end Portal.Bounded

/-- Everything that a caller with a non-empty list of permissions does is covered by them, whatever
it sends, if it sends no `run.cancel` frame without "write" and looks up no action with `HEAD`
without "governance:decide". -/
theorem effects_permitted (srv : Server) (strict : Bool) (permissions : Permissions)
    (hne : permissions ≠ []) (world : World) (events : List ClientEvent)
    (hmeets : ∀ ev ∈ events, ev.meets permissions = true) :
    ∀ e ∈ (Trace.run (Portal.step srv strict permissions) events { world := world }).effects,
      e.Permitted permissions := by
  have hstart : Portal.Bounded permissions { world := world } := by
    constructor <;> simp
  have hstep : ∀ ev s, ev.meets permissions → Portal.Bounded permissions s →
      (Portal.step srv strict permissions ev s).Bounded permissions := by
    intro ev s hev hs
    exact hs.step hne hev
  have hrun : Trace.Every (Portal.step srv strict permissions)
      (fun ev _ => ev.meets permissions) events { world := world } :=
    Trace.every_of_mem hmeets
  exact (Trace.invariant hstep hrun hstart).effects

/-- A caller that may run one agent : its run of the agent is created, the one of another agent is
not, and it cannot cancel. -/
def botEvents : List ClientEvent :=
  [.http { method := .post, target := ["runs"], body := { agentId := "bot", runId := "r" } },
    .http { method := .post, target := ["runs"], body := { agentId := "other", runId := "q" } },
    .http { method := .post, target := ["runs", "r", "cancel"] }] ++
    List.replicate 8 (.world (.proceed 0 {})) ++ List.replicate 8 (.world (.proceed 1 {}))

theorem effects_permitted_bot :
    let s := Trace.run (Portal.step {} true ["agents:bot:run"]) botEvents {}
    s.effects = [.runCreated "bot"] ∧ s.world.requests.length = 2 ∧
      ∀ e ∈ s.effects, e.Permitted ["agents:bot:run"] :=
  ⟨by decide +kernel, by decide +kernel,
    effects_permitted {} true ["agents:bot:run"] (by decide) {} botEvents (by decide +kernel)⟩

/-- Someone's run is created on the thread `t`, and then a caller that may only read opens a
connection to the thread and cancels the run. -/
def readerCancels : List ClientEvent :=
  .world (.create {} { runId := "r", threadId := "t", agentId := "bot" } "" "" "") ::
    List.replicate 8 (.world (.proceed 0 {})) ++
    [.http { method := .get, target := ["threads", "t", "websocket"] },
      .frame 0 (.runCancel "r") "" {}, .world (.proceed 1 {}), .world (.proceed 1 {})]

/-- The run is cancelled, and with `HEAD` the same caller looks up an action. -/
theorem reader_cancels_run :
    (∃ e ∈ (Trace.run (Portal.step {} true ["read"]) readerCancels {}).effects,
      e = .runCancelled "r" ∧ ¬ e.Permitted ["read"]) ∧
    ∃ e ∈ (Trace.run (Portal.step {} true ["read"])
        [.http { method := .head, target := ["governance", "actions", "a"] }] {}).effects,
      e = .lookedUp "a" ∧ ¬ e.Permitted ["read"] := by
  have hwrite : ¬ MayWrite ["read"] := by decide
  have hdecide : ¬ MayDecide ["read"] := by decide
  exact ⟨⟨.runCancelled "r", by decide +kernel, rfl, hwrite⟩,
    ⟨.lookedUp "a", by decide +kernel, rfl, hdecide⟩⟩

end Runkite
