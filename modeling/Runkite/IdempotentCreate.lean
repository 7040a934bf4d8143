import Runkite.StepWrites

/-!
# Retries of a create request

A client that chooses the id of its run can send the same request any number of times, at the
same time or one after the other. `World.Retried` is what holds of the row of the run and of
each of these requests at every moment, provided that those which are routed at all go to one
agent and one thread : the row is the one that the request asks for, and no comparison with it
finds a difference. `idempotent_create` is the result for whole runs.

Requests that find the run as soon as they arrive are not routed. For the others the routing has to
be the same because `createRunCtx` compares with what it routed to, and each request without a
thread gets one of its own. A request that budget routing sends to another agent is stored under
that agent, and an identical retry is refused as one for a different agent
(`rerouted_retry_refused`).
-/

open Json (Members Number Text)

namespace Runkite

open Create

/-! ## The row and the comparison -/

/-- The name is routed to one agent. A name that is no alias is run as it is; an alias stands
for one agent, under which a request can be compared again. -/
structure Settled (srv : Server) (name agent : String) : Prop where
  of_not_alias : srv.aliases.isAlias name = false → agent = name
  of_alias : srv.aliases.isAlias name = true →
    agent ≠ "" ∧ (srv.aliases.isAlias agent = false ∨ agent = name)

/-- The row is the one that the request asks for. -/
structure RunCreate.Fits (srv : Server) (b : RunCreate) (agent thread : String) (r : Run) : Prop where
  agentId : r.agentId = agent
  threadId : r.threadId = thread
  input : r.input = rawText b.input
  requestedAlias : srv.aliases.isAlias b.agent = true → b.agent ≠ "" → r.requestedAlias = b.agent

/-- The request as `createRunCtx` rewrites it. -/
def RunCreate.rewritten (b : RunCreate) (agent : String) : RunCreate := { b with agentId := agent }

variable {srv : Server} {env : Env} {ctx : Ctx} {b : RunCreate} {agent thread : String} {c : Create}
  {db : Db} {response : Response} {r r' : Run} {w : World} {req : RunCreate}

theorem RunCreate.Fits.rowStep {rolledBack : Prop} (h : b.Fits srv agent thread r)
    (hrow : RowStep rolledBack r r') : b.Fits srv agent thread r' := by
  obtain ⟨-, hthread, hagent, hinput⟩ := hrow.keeps
  exact ⟨hagent.trans h.agentId, hthread.trans h.threadId, hinput.trans h.input,
    fun halias hne => hrow.requestedAlias.trans (h.requestedAlias halias hne)⟩

theorem RunCreate.Fits.input_equal (h : b.Fits srv agent thread r) :
    ¬ (b.input.isSome ∧ Json.deepEqual r.input (rawText b.input) = false) := by
  rintro ⟨hsome, hdiffers⟩
  obtain ⟨v, hv⟩ := Option.isSome_iff_exists.1 hsome
  rw [h.input, hv, rawText, Json.deepEqual_self] at hdiffers
  cases hdiffers

/-- The request agrees with the row, as it was sent. -/
theorem RunCreate.Fits.fingerprint (h : b.Fits srv agent thread r) (hs : Settled srv b.agent agent)
    (hthread : b.threadId = "" ∨ b.threadId = thread) :
    fingerprintMismatch srv r b b.threadId = none := by
  have hagent : ¬ (b.agent ≠ "" ∧ (if srv.aliases.isAlias b.agent then r.requestedAlias ≠ b.agent
      else r.agentId ≠ b.agent)) := by
    rintro ⟨hne, hdiffers⟩
    split_ifs at hdiffers with halias
    · exact hdiffers (h.requestedAlias halias hne)
    · exact hdiffers (h.agentId.trans (hs.of_not_alias (by simpa using halias)))
  have hsame : ¬ (b.threadId ≠ "" ∧ r.threadId ≠ b.threadId) := fun hdiffers =>
    hdiffers.2 (h.threadId.trans (hthread.resolve_left hdiffers.1).symm)
  rw [fingerprintMismatch, if_neg hagent, if_neg hsame, if_neg h.input_equal]

/-- The request agrees with the row, as it was rewritten. -/
theorem RunCreate.Fits.fingerprint_rewritten (h : b.Fits srv agent thread r)
    (hs : Settled srv b.agent agent) :
    fingerprintMismatch srv r (b.rewritten agent) thread = none := by
  have hagent : ¬ ((b.rewritten agent).agent ≠ "" ∧ (if srv.aliases.isAlias (b.rewritten agent).agent
      then r.requestedAlias ≠ (b.rewritten agent).agent else r.agentId ≠ (b.rewritten agent).agent)) := by
    rintro ⟨hne, hdiffers⟩
    by_cases hempty : agent = ""
    · -- only a request that names no agent is routed to the empty one
      have hplain : srv.aliases.isAlias b.agent = false := by
        by_contra halias
        exact (hs.of_alias (by simpa using halias)).1 hempty
      have hname := hs.of_not_alias hplain
      rw [hempty] at hname
      simp only [RunCreate.agent, RunCreate.rewritten, hempty, if_true] at hne hname
      split_ifs at hname
      · exact hne hname.symm
      · simp_all
    · have hreq : (b.rewritten agent).agent = agent := by
        simp [RunCreate.agent, RunCreate.rewritten, hempty]
      rw [hreq] at hdiffers
      split_ifs at hdiffers with halias
      · -- an alias again : then it is the name itself
        have hname : agent = b.agent := by
          cases hplain : srv.aliases.isAlias b.agent with
          | false => exact hs.of_not_alias hplain
          | true => exact (hs.of_alias hplain).2.resolve_left (by simp [halias])
        exact hdiffers ((h.requestedAlias (hname ▸ halias) (hname ▸ hempty)).trans hname.symm)
      · exact hdiffers h.agentId
  rw [fingerprintMismatch, if_neg hagent, if_neg (fun hdiffers => hdiffers.2 h.threadId)]
  exact if_neg h.input_equal

/-! ## What a request inserts -/

theorem Create.keys_metadataMember (key : String) (v : Option (Json.Value Number)) :
    ((metadataMember key v).map Prod.fst).Sublist [key] := by
  cases v with
  | none => exact List.nil_sublist _
  | some => exact List.Sublist.refl _

theorem Create.keys_aliasMember (c : Create) :
    (c.aliasMember.map Prod.fst).Sublist ["requested_alias"] := keys_metadataMember _ _

theorem Create.string_aliasMember (c : Create) {rest : Members Number}
    (h : "requested_alias" ∉ rest.map Prod.fst) :
    Members.string (c.aliasMember ++ rest) "requested_alias" = c.requestedAlias := by
  unfold aliasMember metadataMember Members.string
  split_ifs with hempty
  · simp [Json.Members.lookup_eq_none_iff.2 h, hempty]
  · simp [Json.Value.asString]

theorem Create.keys_cached (c : Create) (env : Env) :
    ((("cache_hit", Json.Value.bool true) :: ("run_manifest", env.manifest) ::
      c.aliasMember).map Prod.fst).Sublist ["cache_hit", "run_manifest", "requested_alias"] :=
  (c.keys_aliasMember.cons_cons _).cons_cons _

/-- What a request inserts is what it asks for, after its rewrite. -/
theorem Create.inserts_run {ctx : Ctx} {run : NewRun} (h : c.inserts env ctx run) :
    run.runId = c.runId ∧ run.threadId = c.threadId ∧ run.agentId = c.req.agentId ∧
      run.input = rawText c.req.input ∧ Members.Distinct (run.metadata.getD []) ∧
      run.requestedAlias = c.requestedAlias := by
  obtain ⟨-, ⟨parent, -, rfl⟩ | ⟨-, _, rfl⟩⟩ := h
  · obtain ⟨rest, hmeta, hrest⟩ : ∃ rest, (c.newRun env parent).metadata.getD [] =
        c.aliasMember ++ rest ∧
        (rest.map Prod.fst).Sublist (["cache_key"] ++ (["run_manifest"] ++ ["simulation"])) := by
      refine ⟨_, by simp only [newRun, Option.getD_some, List.append_assoc]; rfl, ?_⟩
      simp only [List.map_append]
      exact (keys_metadataMember _ _).append ((List.Sublist.refl _).append
        (keys_metadataMember _ _))
    refine ⟨rfl, rfl, rfl, rfl, ?_, ?_⟩
    · have hkeys := c.keys_aliasMember.append hrest
      rw [← List.map_append] at hkeys
      rw [hmeta]
      exact hkeys.nodup (by decide)
    · rw [NewRun.requestedAlias, hmeta]
      exact c.string_aliasMember fun hmem => absurd (hrest.subset hmem) (by decide)
  · refine ⟨rfl, rfl, rfl, rfl, ?_, ?_⟩
    · exact (c.keys_cached env).nodup (by decide)
    · have halias : Members.string (c.aliasMember ++ []) "requested_alias" = c.requestedAlias :=
        c.string_aliasMember (by simp)
      rw [List.append_nil] at halias
      simpa [NewRun.requestedAlias, cachedRun, Members.string, Members.lookup_member]
        using halias

/-! ## The steps of a request -/

/-- The request has not been rewritten yet. -/
def Phase.early : Phase → Bool
  | .arrived | .resolve => true
  | _ => false

/-- The request has been rewritten, and is not yet answered. -/
def Phase.late : Phase → Bool
  | .arrived | .resolve | .done _ => false
  | _ => true

/-- What a request is answered with, or is going to be. -/
def Phase.response? : Phase → Option Response
  | .unclaim _ response | .done response => some response
  | _ => none

/-- What holds of a request for the run at every moment. -/
structure Create.Retries (srv : Server) (ctx : Ctx) (b : RunCreate) (agent thread : String) (db : Db)
    (c : Create) : Prop where
  ctx_eq : c.ctx = ctx
  early : c.phase.early = true → c.req = b
  late : c.phase.late = true → c.req = b.rewritten agent ∧ c.threadId = thread ∧
    (srv.aliases.isAlias b.agent = true → b.agent ≠ "" → c.requestedAlias = b.agent)
  response : ∀ response, c.phase.response? = some response → (∀ m, response ≠ .mismatch m) ∧
    (response.isRun = true → ∃ r, db.runs.get? b.runId = some r)
  enqueue : ∀ run, c.phase = .enqueue run → ∃ r, db.runs.get? b.runId = some r

/-- What a comparison that found a run answers. -/
def Compared (srv : Server) (ctx : Ctx) (req : RunCreate) (threadId : String) (db : Db)
    (response : Response) : Prop :=
  ∃ run, db.getRun ctx req.runId = some run ∧ (response = .existing run ∨
    (∃ e, response = .error e) ∨
    ∃ m, response = .mismatch m ∧ fingerprintMismatch srv run req threadId = some m)

theorem compared_of_findRunForRetry {threadId : String}
    (h : findRunForRetry srv env ctx req threadId db = some response) :
    Compared srv ctx req threadId db response := by
  unfold findRunForRetry at h
  split_ifs at h
  split at h
  · cases h
  · rename_i run hrun
    refine ⟨run, getRun_of_fetchRun (Env.query_ok hrun), ?_⟩
    split at h
    · rename_i m hm
      exact .inr (.inr ⟨m, (Option.some.inj h).symm, hm⟩)
    · split at h
      · exact .inr (.inl ⟨_, (Option.some.inj h).symm⟩)
      · exact .inl (Option.some.inj h).symm

theorem compared_of_raceFallback (h : c.raceFallback srv env db = some response) :
    Compared srv c.ctx c.req c.threadId db response := by
  unfold raceFallback at h
  split_ifs at h
  split at h
  · cases h
  · rename_i run hrun
    refine ⟨run, getRun_of_fetchRun (Env.query_ok hrun), ?_⟩
    split at h
    · rename_i m hm
      exact .inr (.inr ⟨m, (Option.some.inj h).symm, hm⟩)
    · exact .inl (Option.some.inj h).symm

/-- The answer is no mismatch, and a run only if the run is stored. -/
def Response.Agrees (runId : String) (db : Db) (response : Response) : Prop :=
  (∀ m, response ≠ .mismatch m) ∧ (response.isRun = true → ∃ r, db.runs.get? runId = some r)

/-- A comparison with a row that fits finds no difference. -/
theorem Compared.answer (h : Compared srv ctx req thread db response) (hid : req.runId = b.runId)
    (hfits : ∀ r, db.runs.get? b.runId = some r → fingerprintMismatch srv r req thread = none) :
    response.Agrees b.runId db := by
  obtain ⟨run, hrun, hcases⟩ := h
  rw [hid] at hrun
  have hget := get?_of_getRun hrun
  refine ⟨?_, fun _ => ⟨run, hget⟩⟩
  rintro m rfl
  obtain heq | ⟨e, heq⟩ | ⟨m', -, hm⟩ := hcases
  · cases heq
  · cases heq
  · rw [hfits run hget] at hm
    cases hm

theorem Create.Retries.next (h : c.Retries srv ctx b agent thread db) (hid : c.runId = b.runId)
    (hs : Settled srv b.agent agent) (hthread : b.threadId = "" ∨ b.threadId = thread)
    (hfits : ∀ r, db.runs.get? b.runId = some r → b.Fits srv agent thread r)
    (hroute : c.phase = .resolve →
      c.threadId = thread ∧ (srv.route env.rand env.sums ctx.tenant b.agent).1 = agent)
    (hkept : (∃ r, db.runs.get? b.runId = some r) →
      ∃ r, (c.next srv env db).2.runs.get? b.runId = some r) :
    (c.next srv env db).1.Retries srv ctx b agent thread (c.next srv env db).2 := by
  obtain ⟨p, hp, hgoes⟩ | ⟨hphase, -, hp⟩ := c.next_goes srv env db
  · -- the comparisons before and after the rewrite
    have hearly : c.phase.early → ∀ {r}, Compared srv c.ctx c.req c.req.threadId db r →
        r.Agrees b.runId db := by
      intro hphase r hr
      rw [h.early hphase] at hr
      exact hr.answer rfl fun r hr => (hfits r hr).fingerprint hs hthread
    have hlate : c.phase.late → ∀ {r}, Compared srv c.ctx c.req c.threadId db r →
        r.Agrees b.runId db := by
      intro hphase r hr
      rw [(h.late hphase).1, (h.late hphase).2.1] at hr
      exact hr.answer rfl fun r hr => (hfits r hr).fingerprint_rewritten hs
    rw [hp]
    refine ⟨h.ctx_eq, ?_, ?_, ?_, ?_⟩
    · intro hp
      refine h.early ?_
      generalize c.phase = q at hgoes
      cases hgoes <;> first | rfl | cases hp
    · intro hp
      refine h.late ?_
      generalize c.phase = q at hgoes
      cases hgoes <;> first | rfl | cases hp
    · intro response hresponse
      suffices hans : response.Agrees b.runId db from
        ⟨hans.1, fun hrun => hkept (hans.2 hrun)⟩
      have herror : ∀ e, (Response.error e).Agrees b.runId db :=
        fun e => ⟨fun m => by simp, fun hrun => by cases hrun⟩
      replace hresponse : p.response? = some response := hresponse
      generalize hq : c.phase = q at hgoes
      cases hgoes with
      | found hfound =>
        cases hresponse
        exact hearly (by rw [hq]; rfl) (compared_of_findRunForRetry hfound)
      | foundCached hfound =>
        cases hresponse
        exact hlate (by rw [hq]; rfl) (compared_of_findRunForRetry hfound)
      | foundBusy hfound | foundInserted hfound =>
        cases hresponse
        exact hlate (by rw [hq]; rfl) (compared_of_raceFallback hfound)
      | @reloaded run hrun =>
        cases hresponse
        rw [hid] at hrun
        exact ⟨fun m => by simp, fun _ => ⟨run, get?_of_getRun hrun⟩⟩
      | @enqueued run =>
        cases hresponse
        exact ⟨fun m => by simp, fun _ => h.enqueue run hq⟩
      | unclaimAgain | unclaimed | answered =>
        exact h.response response (by rw [hq]; exact hresponse)
      | _ => cases hresponse <;> exact herror _
    · intro run hrun
      replace hrun : p = .enqueue run := hrun
      subst hrun
      generalize hq : c.phase = q at hgoes
      cases hgoes with
      | inserted hrow =>
        simp only [Create.next, hq, ← hid]
        split <;> rename_i heq <;> rwa [heq] at hrow
  · rw [hp]
    have hreq : c.req = b := h.early (by rw [hphase]; rfl)
    refine ⟨h.ctx_eq, ?_, fun _ => ⟨?_, (hroute hphase).1, ?_⟩, ?_, ?_⟩
    · intro hp
      cases hp
    · rw [hreq, h.ctx_eq, (hroute hphase).2]
      rfl
    · intro halias hne
      rw [hreq]
      simp only [Server.route, AliasResolver.resolve_snd, halias, if_true, hne, if_false]
      split_ifs <;> rfl
    · intro response hresponse
      cases hresponse
    · intro run hrun
      cases hrun

/-! ## Whole runs -/

/-- A create request that arrives with the id of the run is the same request. -/
def SameRequest (ctx : Ctx) (b : RunCreate) (ev : Event) : Prop :=
  ∀ ctx' req freshThread freshRun now, ev = .create ctx' req freshThread freshRun now →
    (Create.arrive ctx' req freshThread freshRun now).runId = b.runId → ctx' = ctx ∧ req = b

/-- Where a request for the run is routed in this step, it is for this thread, its name is drawn
to this agent, and budget routing has no other agent for it or no budget is nearly spent. -/
def Unrerouted (srv : Server) (b : RunCreate) (agent thread : String) (ev : Event) (w : World) : Bool :=
  match ev with
  | .proceed i env =>
    match w.requests[i]? with
    | some (.create c) =>
      match c.phase with
      | .resolve => c.runId ≠ b.runId || c.threadId = thread &&
        (srv.aliases.resolve b.agent env.rand).1 = agent &&
        ((srv.routing.target? agent (srv.aliasKey b.agent)).isNone ||
          !srv.budgets.near srv.routingSoftPct env.sums c.ctx.tenant agent)
      | _ => true
    | _ => true
  | _ => true

/-- What holds of the row of the run and of the requests for it. -/
structure World.Retried (srv : Server) (ctx : Ctx) (b : RunCreate) (agent thread : String)
    (w : World) : Prop where
  row : ∀ r, w.db.runs.get? b.runId = some r → b.Fits srv agent thread r
  requests : ∀ (i : ℕ) (c : Create), w.requests[i]? = some (.create c) → c.runId = b.runId →
    c.Retries srv ctx b agent thread w.db

/-- The row that a request for the run inserts fits. -/
theorem World.Retried.fits_new (h : w.Retried srv ctx b agent thread) {ev : Event} {ctx' : Ctx}
    {run : NewRun} {r : Run} (hins : w.inserts ev ctx' run) (hid : run.runId = b.runId)
    (hr : run.Inserted ctx' r) : b.Fits srv agent thread r := by
  obtain ⟨i, _, c, -, hreq, hins⟩ := hins
  obtain ⟨hrunId, hthread, hagent, hinput, hdistinct, halias⟩ := inserts_run hins
  have hc := h.requests i c hreq (hrunId.symm.trans hid)
  have hlate : c.phase.late := by
    obtain ⟨-, ⟨_, hphase, -⟩ | ⟨hphase, -⟩⟩ := hins <;> rw [hphase] <;> rfl
  obtain ⟨hrewritten, hthreadId, hname⟩ := hc.late hlate
  rw [hrewritten] at hagent hinput
  exact ⟨hr.agentId.trans hagent, hr.threadId.trans (hthread.trans hthreadId),
    hr.input.trans hinput, fun h hne => (hr.requestedAlias hdistinct).trans
      (halias.trans (hname h hne))⟩

theorem World.Retried.step (h : w.Retried srv ctx b agent thread) {ev : Event}
    (hthread : b.threadId = "" ∨ b.threadId = thread) (hs : Settled srv b.agent agent)
    (hsame : SameRequest ctx b ev) (hroute : Unrerouted srv b agent thread ev w)
    (hkept : w.db.runs.get? b.runId ≠ none → (w.step srv ev).db.runs.get? b.runId ≠ none) :
    (w.step srv ev).Retried srv ctx b agent thread := by
  have hw := @World.step_writes srv w ev
  have hkept' : (∃ r, w.db.runs.get? b.runId = some r) →
      ∃ r, (w.step srv ev).db.runs.get? b.runId = some r := fun ⟨r, hr⟩ =>
    Option.ne_none_iff_exists'.1 (hkept (by simp [hr]))
  constructor
  · intro r hr
    cases hold : w.db.runs.get? b.runId with
    | none =>
      obtain ⟨ctx', run, t, hins, hid, hrow, -⟩ := hw.newRow hold hr
      exact h.fits_new hins hid hrow
    | some r₀ =>
      exact (h.row r₀ hold).rowStep (hw.rowStep_kept hold hr)
  · intro i c' hreq hid
    obtain hold | ⟨ctx', req, freshThread, freshRun, now, hev, rfl⟩ | ⟨env, c, rfl, hc, rfl⟩ :=
      World.step_requests hreq
    · have hc := h.requests i c' hold hid
      exact ⟨hc.ctx_eq, hc.early, hc.late,
        fun r hr => ⟨(hc.response r hr).1, fun hrun => hkept' ((hc.response r hr).2 hrun)⟩,
        fun run hrun => hkept' (hc.enqueue run hrun)⟩
    · obtain ⟨rfl, rfl⟩ := hsame ctx' req freshThread freshRun now hev hid
      refine ⟨rfl, fun _ => rfl, ?_, ?_, ?_⟩
      · intro hp
        cases hp
      · intro response hresponse
        cases hresponse
      · intro run hrun
        cases hrun
    · have hdb : (w.step srv (.proceed i env)).db = (c.next srv env w.db).2 := by
        simp [World.step, hc, Request.next]
      rw [(c.next_ids srv env w.db).2.2] at hid
      rw [hdb] at hkept' ⊢
      have hretry := h.requests i c hc hid
      refine hretry.next hid hs hthread h.row (fun hphase => ?_) hkept'
      simp only [Unrerouted, hc, hphase, hid, hretry.ctx_eq, ne_eq, not_true_eq_false, decide_false,
        Bool.false_or, Bool.and_eq_true, decide_eq_true_eq, and_assoc] at hroute
      obtain ⟨hthreadId, hdrawn, hleft⟩ := hroute
      refine ⟨hthreadId, (Server.route_eq_iff hdrawn).2 (.inr ⟨?_, rfl⟩)⟩
      rintro target ⟨-, htarget, hspent⟩
      simp [htarget, (Budgets.near_iff ..).2 hspent] at hleft

theorem World.Retried.run (hthread : b.threadId = "" ∨ b.threadId = thread)
    (hs : Settled srv b.agent agent)
    {evs : List Event} {w : World} (h : w.Retried srv ctx b agent thread)
    (hsame : ∀ ev ∈ evs, SameRequest ctx b ev)
    (hroutes : Trace.Every (World.step srv) (fun ev w => Unrerouted srv b agent thread ev w) evs w)
    (hkepts : Trace.Every (World.step srv) (fun ev w => w.db.runs.get? b.runId ≠ none →
      (w.step srv ev).db.runs.get? b.runId ≠ none) evs w) :
    (Trace.run (World.step srv) evs w).Retried srv ctx b agent thread :=
  Trace.invariant (fun _ _ ⟨hev, hroute, hkept⟩ h => h.step hthread hs hev hroute hkept)
    (Trace.every_and (Trace.every_of_mem hsame) (Trace.every_and hroutes hkepts)) h

/-- Identical create requests with an id of their own choice, of which those that are routed go to
one agent and one thread : among any other steps there is at most one row for the run, none of them
is answered with a conflict of agent, thread or input, and there is exactly one row once one of them
was answered with a run. -/
theorem idempotent_create (srv : Server) (ctx : Ctx) (b : RunCreate) (agent thread : String) (w : World)
    (evs : List Event) (hthread : b.threadId = "" ∨ b.threadId = thread)
    (hagent : Settled srv b.agent agent)
    (hrow : w.db.runs.get? b.runId = none)
    (hfirst : ∀ c, Request.create c ∈ w.requests → c.runId ≠ b.runId)
    (hsame : ∀ ev ∈ evs, SameRequest ctx b ev)
    (hroute : Trace.Every (World.step srv) (fun ev w => Unrerouted srv b agent thread ev w = true) evs w)
    (hkept : Trace.Every (World.step srv) (fun ev w => w.db.runs.get? b.runId ≠ none →
      (w.step srv ev).db.runs.get? b.runId ≠ none) evs w) :
    let w' := Trace.run (World.step srv) evs w
    let rows := w'.db.runs.count fun r => r.runId = b.runId
    rows ≤ 1 ∧ ∀ c, Request.create c ∈ w'.requests → c.runId = b.runId →
      ∀ response, c.phase = .done response →
        (∀ m, response ≠ .mismatch m) ∧ (response.isRun = true → rows = 1) := by
  intro w' rows
  have hinitial : w.Retried srv ctx b agent thread := by
    constructor
    · intro r hr
      simp [hrow] at hr
    · intro i c hreq hid
      exact absurd hid (hfirst c (List.mem_of_getElem? hreq))
  have hfinal : w'.Retried srv ctx b agent thread := hinitial.run hthread hagent hsame hroute hkept
  refine ⟨w'.db.runs.count_key_le_one b.runId, fun c hc hid response hphase => ?_⟩
  obtain ⟨i, hi⟩ := List.mem_iff_getElem?.1 hc
  obtain ⟨hmismatch, hrun⟩ := (hfinal.requests i c hi hid).response response (by rw [hphase]; rfl)
  refine ⟨hmismatch, fun hisRun => ?_⟩
  obtain ⟨r, hr⟩ := hrun hisRun
  exact Table.count_key_of_get? hr

def retriedRequest : RunCreate := { runId := "r", threadId := "t", agentId := "a" }

/-- The request is sent twice at the same time. The second finds the thread busy, and the run
of the first. -/
def sentTwice : List Event :=
  .create {} retriedRequest "" "" "" :: .create {} retriedRequest "" "" "" :: .proceed 1 {} ::
    List.replicate 8 (.proceed 0 {}) ++ List.replicate 5 (.proceed 1 {})

theorem idempotent_create_twice :
    (Trace.run (World.step {}) sentTwice {}).requests.map Request.answered = [true, true] ∧
    let w' := Trace.run (World.step {}) sentTwice {}
    let rows := w'.db.runs.count fun r => r.runId = retriedRequest.runId
    rows ≤ 1 ∧ ∀ c, Request.create c ∈ w'.requests → c.runId = retriedRequest.runId →
      ∀ response, c.phase = .done response →
        (∀ m, response ≠ .mismatch m) ∧ (response.isRun = true → rows = 1) := by
  have hagent : Settled {} retriedRequest.agent "a" := ⟨fun _ => rfl, fun halias => by cases halias⟩
  have hfirst : ∀ c, Request.create c ∈ ({} : World).requests → c.runId ≠ retriedRequest.runId := by
    intro c hc
    cases hc
  have hsame : ∀ ev ∈ sentTwice, SameRequest {} retriedRequest ev := by
    rintro ev hev ctx' req freshThread freshRun now rfl -
    simp only [sentTwice, List.cons_append, List.mem_cons, List.mem_append, List.mem_replicate,
      Event.create.injEq, reduceCtorEq, and_false, or_false] at hev
    obtain ⟨hctx, hreq, -⟩ | ⟨hctx, hreq, -⟩ := hev <;> exact ⟨hctx, hreq⟩
  exact ⟨by decide +kernel, idempotent_create {} {} retriedRequest "a" "t" {} sentTwice (.inr rfl)
    hagent (Table.get?_empty _) hfirst hsame (by decide +kernel) (by decide +kernel)⟩

/-- The error with which a create request was answered. -/
def Request.error? : Request → Option StoreError
  | .create c =>
    match c.phase with
    | .done response => response.error? c.runId
    | _ => none
  | _ => none

/-- An agent with a cap of ten runs a day, and one that is run instead when it is nearly spent. -/
def routingServer (agentId instead : String) : Server where
  routing := { enabled := true, aliases := [(agentId, [instead])] }
  budgets := { agents := [("default/" ++ agentId, { maxRunsPerDay := 10 })] }

/-- There were eight runs on that day. -/
def eightRuns : Env where
  sums _ := { usage := some ⟨0, 0, 0⟩, runs := some 8 }

/-- The budget of `big` is nearly spent, so the first request runs `small` instead; the second,
identical request is refused because the run has a different agent. -/
theorem rerouted_retry_refused :
    let srv := routingServer "big" "small"
    let b : RunCreate := { runId := "r", threadId := "t", agentId := "big" }
    let evs : List Event := .create {} b "" "" "" :: List.replicate 8 (.proceed 0 eightRuns) ++
      [.create {} b "" "" "", .proceed 1 eightRuns]
    let w := Trace.run (World.step srv) evs {}
    (w.db.runs.get? "r").map (fun r => (r.agentId, r.requestedAlias)) = some ("small", "big") ∧
      w.requests.map Request.error? =
        [none, some (.conflict "run" "r" "run_id reused with a different agent")] := by
  decide +kernel

end Runkite
