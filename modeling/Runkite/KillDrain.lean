import Runkite.CancelRun
import Runkite.KillSwitch

/-!
# Draining a killed scope

The activation of a kill switch stores the switch and then cancels the pending and running runs of
its scope, page by page. A request to create a run looks for a switch once, at the admission gate,
and inserts the run several calls later. A request that passed the gate before the switch was stored
can therefore insert its run after the drain has listed the runs (`kill_drain_misses_create`).

If no request of the scope is in that window when the switch is stored, no run of the scope is left
pending or running once the activation returned (`kill_drains_scope`).

The context of the drain is derived from the system's, which sees every tenant. So it lists, and
cancels, the runs of all tenants; the runs of the scope are among them.
-/

open Transaction (query)

namespace Runkite

/-! ## The admission gate -/

/-- Why `admissionGate.Decide` denies a run that an active switch covers. -/
def KillSwitch.denial (k : KillSwitch) : String :=
  let reason :=
    if k.reason ≠ "" then k.reason
    else if k.agentId ≠ "" then "agent kill switch active"
    else "tenant kill switch active"
  if k.pauseOnly then "enqueue paused: " ++ reason else reason

/-- The kill check of the gate, and the error that `CheckBeforeRun` makes of a denial. -/
def KillTable.refusal (t : KillTable) (tenantId agentId : String) : Option StoreError :=
  (t.findActiveKill tenantId agentId).map fun k =>
    .message ("run denied by preflight hook: " ++ k.denial)

/-- The request passed the gate and has not inserted its run yet. -/
def Phase.admitted : Phase → Bool
  | .ensureThread | .createThread | .regetThread _ | .cached | .claim | .parent _ | .siblings _
  | .insert _ => true
  | _ => false

/-! ## The activation -/

def killDrainPageSize : ℕ := 200

def killDrainMaxPages : ℕ := 1000

/-- Where the drain stands. -/
structure Drain where
  status : RunStatus
  /-- The statuses to come. -/
  rest : List RunStatus
  page : ℕ := 0
  /-- The number of runs of the page. -/
  found : ℕ := 0
  pageCancelled : ℕ := 0
  /-- The runs of the page that are still to be cancelled. -/
  left : List Run := []

inductive ActivationPhase where
  | upsert
  | search (d : Drain)
  | page (d : Drain)
  | cancel (d : Drain) (call : Cancellation)
  | reload
  | returned (error : Option StoreError)

/-- `handleAdminCreateKillSwitch`. -/
structure Activation where
  body : KillSwitchBody
  createdBy : String := ""
  phase : ActivationPhase := .upsert

namespace Drain

def first : Drain := { status := .pending, rest := [.running] }

def nextStatus (d : Drain) : ActivationPhase :=
  match d.rest with
  | [] => .reload
  | status :: rest => .search { status := status, rest := rest }

def nextPage (d : Drain) : ActivationPhase :=
  if d.page + 1 < killDrainMaxPages then .search { d with page := d.page + 1 } else d.nextStatus

/-- The search for the next page. The context carries the tenant but is still the system's. -/
def find (d : Drain) (scope : String × String) (env : Env) (db : Db) :
    Except StoreError (List Run) :=
  env.query (fun db => .ok (searchRuns { tenant := scope.1, system := true }
    { status := some d.status, agentId := scope.2, limit := killDrainPageSize } db)) db

/-- The page was found. -/
def found? (d : Drain) : Except StoreError (List Run) → ActivationPhase
  | .error _ => d.nextStatus
  | .ok [] => d.nextStatus
  | .ok runs => .page { d with found := runs.length, pageCancelled := 0, left := runs }

/-- The next run of the page, or the end of the page. -/
def nextRun (d : Drain) (scope : String × String) : ActivationPhase :=
  match d.left with
  | [] =>
    if d.pageCancelled = 0 then d.nextStatus
    else if d.found < killDrainPageSize then d.nextStatus
    else d.nextPage
  | r :: left =>
    if r.status.terminal then .page { d with left := left }
    else .cancel { d with left := left } (.single { tenant := scope.1, system := true } r)

/-- What a step of `cancelRunSingle` leads to. -/
def cancelled (d : Drain) (call : Cancellation) : ActivationPhase :=
  match call.phase with
  | .done none => .page { d with pageCancelled := d.pageCancelled + 1 }
  | .done (some _) => .page d
  | _ => .cancel d call

end Drain

/-- The world, the kill switches and an activation. -/
structure Killing where
  world : World
  kills : KillTable
  activation : Activation

inductive KillEvent where
  | world (ev : Event)
  /-- Another request to the admin API. -/
  | admin (r : KillRequest)
  /-- The activation makes its next call. -/
  | activation (env : Env)

namespace Killing

def goto (s : Killing) (phase : ActivationPhase) : Killing :=
  { s with activation := { s.activation with phase := phase } }

/-- The gate refuses a request if it finds a switch for the agent that the run will have. -/
def gated (srv : Server) (s : Killing) : Event → Event
  | .proceed i env =>
    match s.world.requests[i]? with
    | some (.create c) => .proceed i { env with
        refusal := env.refusal.or
          (s.kills.refusal c.ctx.tenant (srv.route env.rand env.sums c.ctx.tenant c.req.agent).1) }
    | _ => .proceed i env
  | ev => ev

/-- A step of `handleAdminCreateKillSwitch`. -/
def activate (srv : Server) (s : Killing) (env : Env) : Killing :=
  let scope := s.activation.body.scope
  match s.activation.phase with
  | .upsert =>
    let result := (KillRequest.activate s.activation.body s.activation.createdBy env.now
      env.driver).handle s.kills
    match result.1 with
    | .error e => { s.goto (.returned (some e)) with kills := result.2 }
    | .ok _ =>
      let phase := if s.activation.body.pauseOnly then .reload else .search Drain.first
      { s.goto phase with kills := result.2 }
  | .search d => s.goto (d.found? (d.find scope env s.world.db))
  | .page d => s.goto (d.nextRun scope)
  | .cancel d call =>
    let next := call.next srv env s.world.db
    { s.goto (d.cancelled next.1) with
      world := { s.world with db := next.2, redis := call.queue env s.world.redis } }
  | .reload =>
    match query env.driver (KillTable.getKillSwitch s.activation.body.switchId) s.kills with
    | .error e => s.goto (.returned (some e))
    | .ok _ => s.goto (.returned none)
  | .returned _ => s

def step (srv : Server) : KillEvent → Killing → Killing
  | .world ev, s => { s with world := s.world.step srv (s.gated srv ev) }
  | .admin r, s => { s with kills := r.step s.kills }
  | .activation env, s => s.activate srv env

/-! ## The condition -/

/-- The switch is stored with its scope. -/
def active (s : Killing) : Bool :=
  (s.kills.get? s.activation.body.switchId).any fun k => k.scope = s.activation.body.scope

/-- A request for a run of the scope that passed the gate and has not inserted the run. -/
def pendingInsert (scope : String × String) : Request → Bool
  | .create c => c.phase.admitted && c.ctx.tenant = scope.1 &&
      (scope.2 = "" || c.req.agentId = scope.2)
  | _ => false

/-- When the switch is stored, no request for a run of its scope is between the gate and its
insertion. The switch stays active. No call of the drain fails, and its pages suffice : when it
lists the last one of a status, that one is not full. -/
def fits (srv : Server) : KillEvent → Killing → Bool
  | .world _, _ => true
  | .admin r, s =>
    match s.activation.phase with
    | .upsert => true
    | _ => (s.step srv (.admin r)).active
  | .activation env, s =>
    match s.activation.phase with
    | .upsert => s.world.requests.all fun r => !pendingInsert s.activation.body.scope r
    | .search d =>
      match d.find s.activation.body.scope env s.world.db with
      | .error _ => false
      | .ok runs => d.page + 1 < killDrainMaxPages || runs.length < killDrainPageSize
    | .cancel _ call => !(call.next srv env s.world.db).1.failed
    | _ => true

end Killing

/-! ## The invariant -/

/-- The runs that the switch covers. -/
def Covered (scope : String × String) (r : Run) : Prop :=
  r.tenantId = scope.1 ∧ (scope.2 = "" ∨ r.agentId = scope.2)

/-- A request for a run that the switch covers has not passed the gate. -/
def Gated (scope : String × String) (c : Create) : Prop :=
  c.phase.admitted = true → ¬ (c.ctx.tenant = scope.1 ∧ (scope.2 = "" ∨ c.req.agentId = scope.2))

/-- The statuses before that of the drain have no runs any more. -/
def Drain.Stage (d : Drain) (scope : String × String) (db : Db) : Prop :=
  d.status = .pending ∧ d.rest = [.running] ∨
    d.status = .running ∧ d.rest = [] ∧
      ∀ runId r, OpenIn (Covered scope) db runId r → r.status ≠ .pending

/-- What is left of the page are the runs `ids`. If the page was not full, no other run of the scope
has the status. -/
structure Drain.Page (d : Drain) (scope : String × String) (db : Db) (ids : List String) : Prop where
  counted : d.pageCancelled + ids.length = d.found
  positive : 0 < d.found
  listed : ∀ r ∈ d.left, r.status = d.status
  covers : d.found < killDrainPageSize → ∀ runId r, OpenIn (Covered scope) db runId r →
    r.status = d.status → runId ∈ ids
  last : d.found < killDrainPageSize ∨ d.page + 1 < killDrainMaxPages

/-- What the position of the activation says about the runs of the scope. -/
def ActivationPhase.Holds (scope : String × String) (db : Db) : ActivationPhase → Prop
  | .upsert => False
  | .search d => d.Stage scope db
  | .page d => d.Stage scope db ∧ d.Page scope db (d.left.map Run.runId)
  | .cancel d call => d.Stage scope db ∧ d.Page scope db (call.runId :: d.left.map Run.runId) ∧
      call.Closes (Covered scope) db
  | .reload | .returned none => ∀ runId r, ¬ OpenIn (Covered scope) db runId r
  | .returned (some _) => True

/-- The switch is active and its scope is being drained. -/
structure Killing.Draining (s : Killing) : Prop where
  stored : KillRequest.Stored s.activation.body.switchId s.activation.body.scope s.kills
  gated : ∀ (j : ℕ) (c : Create), s.world.requests[j]? = some (.create c) →
    Gated s.activation.body.scope c
  db : s.world.db.Sealed
  phase : s.activation.phase.Holds s.activation.body.scope s.world.db

variable {srv : Server} {scope : String × String} {db db' : Db} {d : Drain} {s : Killing}
  {env : Env}

/-- The open runs of the scope after a step were open before, and those that are pending were. -/
def Shrinks (scope : String × String) (db db' : Db) : Prop :=
  ∀ runId r', OpenIn (Covered scope) db' runId r' → ∃ r, OpenIn (Covered scope) db runId r ∧
    (r'.status = .pending → r.status = .pending)

theorem shrinks_of_writes {rolledBack : String → Prop} {inserted : Ctx → NewRun → Prop}
    (h : Writes srv rolledBack inserted db db')
    (hinserted : ∀ ctx run, inserted ctx run → ¬ Covered scope (run.row ctx.tenant)) :
    Shrinks scope db db' := by
  rintro runId r' ⟨hr', hcovered, hopen⟩
  cases hr : db.runs.get? runId with
  | none =>
    obtain ⟨ctx, run, hrun, -, rfl⟩ := h.newRow_open hr hr' hopen
    exact absurd hcovered (hinserted ctx run hrun)
  | some r =>
    have hrow := h.rowStep_kept hr hr'
    obtain ⟨hwas, hpending⟩ := hrow.of_open hopen
    obtain ⟨htenant, -, hagent, -⟩ := hrow.keeps
    refine ⟨r, ⟨hr, ?_, hwas⟩, hpending⟩
    rwa [Covered, ← htenant, ← hagent]

theorem Drain.Stage.mono (h : d.Stage scope db) (hshrinks : Shrinks scope db db') :
    d.Stage scope db' := by
  refine h.imp_right fun ⟨hstatus, hrest, hnone⟩ => ⟨hstatus, hrest, fun runId r' hr' hpending => ?_⟩
  obtain ⟨r, hr, hwas⟩ := hshrinks runId r' hr'
  exact hnone runId r hr (hwas hpending)

theorem status_of_open {r : Run} (h : r.status.terminal = false) (hne : r.status ≠ .pending) :
    r.status = .running := by
  revert h hne
  cases r.status <;> simp [RunStatus.terminal]

theorem Drain.Page.mono {ids : List String} (h : d.Page scope db ids) (hstage : d.Stage scope db)
    (hshrinks : Shrinks scope db db') : d.Page scope db' ids where
  counted := h.counted
  positive := h.positive
  listed := h.listed
  last := h.last
  covers hfound runId r' hr' hstatus := by
    obtain ⟨r, hr, hwas⟩ := hshrinks runId r' hr'
    refine h.covers hfound runId r hr ?_
    rcases hstage with ⟨hpending, -⟩ | ⟨hrunning, -, hnone⟩
    · rw [hpending]
      exact hwas (hstatus.trans hpending)
    · rw [hrunning]
      exact status_of_open hr.2.2 (hnone runId r hr)

theorem ActivationPhase.Holds.mono {phase : ActivationPhase} (h : phase.Holds scope db)
    (hshrinks : Shrinks scope db db') : phase.Holds scope db' := by
  have hclosed : (∀ runId r, ¬ OpenIn (Covered scope) db runId r) →
      ∀ runId r, ¬ OpenIn (Covered scope) db' runId r := by
    intro hnone runId r' hr'
    obtain ⟨r, hr, -⟩ := hshrinks runId r' hr'
    exact hnone runId r hr
  cases phase with
  | upsert => exact h
  | search => exact Drain.Stage.mono h hshrinks
  | page => exact ⟨h.1.mono hshrinks, h.2.mono h.1 hshrinks⟩
  | cancel d call =>
    refine ⟨h.1.mono hshrinks, h.2.1.mono h.1 hshrinks, h.2.2.mono fun r' hr' => ?_⟩
    obtain ⟨r, hr, -⟩ := hshrinks call.runId r' hr'
    exact ⟨r, hr⟩
  | reload => exact hclosed h
  | returned error =>
    cases error with
    | none => exact hclosed h
    | some => trivial

/-! ## Steps of the world -/

/-- Past the gate, a request goes on with the run that it has. -/
theorem Create.Goes.admitted {c : Create} {p p' : Phase} (h : Create.Goes srv env c db p p')
    (hp' : p'.admitted) : p.admitted := by
  cases h <;> first | rfl | simp [Phase.admitted] at hp'

/-- The gate refuses what the stored switch covers. -/
theorem refusal_of_stored {t : KillTable} {id agentId : String}
    (h : KillRequest.Stored id scope t) (hagent : scope.2 = "" ∨ agentId = scope.2) :
    ∃ e, t.refusal scope.1 agentId = some e := by
  obtain ⟨k, hk, hget⟩ := h
  have hmem : k ∈ t.rows := (Table.get?_eq_some_iff.1 hget).1
  have hfound : (t.findActiveKill scope.1 agentId).isSome := by
    unfold KillTable.findActiveKill
    rw [Option.isSome_or]
    have hselect : ∀ agentId', scope = (scope.1, agentId') →
        (t.select fun k => k.scope = (scope.1, agentId')).isSome := by
      intro agentId' heq
      rw [Table.select, List.find?_isSome]
      exact ⟨k, hmem, by simpa [hk] using heq⟩
    rcases hagent with hempty | rfl
    · rw [hselect "" (Prod.ext rfl hempty), Bool.or_true]
    · rw [hselect scope.2 rfl, Bool.true_or]
  obtain ⟨_, hk'⟩ := Option.isSome_iff_exists.1 hfound
  exact ⟨_, by rw [KillTable.refusal, hk']; rfl⟩

/-- A request that makes its next call with the refusal of the gate stays gated. -/
theorem Gated.next {c : Create} (h : Gated scope c) (hrefused : c.ctx.tenant = scope.1 →
      (scope.2 = "" ∨ (srv.route env.rand env.sums c.ctx.tenant c.req.agent).1 = scope.2) →
      ∃ e, env.refusal = some e) : Gated scope (c.next srv env db).1 := by
  obtain ⟨p, hp, hgoes⟩ | ⟨-, hnone, hp⟩ := c.next_goes srv env db
  · rw [hp]
    exact fun hadmitted => h (hgoes.admitted hadmitted)
  · rintro - ⟨htenant, hagent⟩
    rw [hp] at htenant hagent
    obtain ⟨e, he⟩ := hrefused htenant hagent
    rw [hnone] at he
    cases he

theorem gated_step
    (hgated : ∀ (j : ℕ) (c : Create), s.world.requests[j]? = some (.create c) → Gated scope c)
    {id : String} (hstored : KillRequest.Stored id scope s.kills) (ev : Event) (j : ℕ) (c' : Create)
    (h : (s.world.step srv (s.gated srv ev)).requests[j]? = some (.create c')) : Gated scope c' := by
  obtain hsame | ⟨ctx, req, freshThread, freshRun, now, -, rfl⟩ | ⟨env', c, hev, hc, rfl⟩ :=
    World.step_requests h
  · exact hgated j c' hsame
  · exact fun hadmitted => by simp [Create.arrive, Phase.admitted] at hadmitted
  · refine (hgated j c hc).next fun htenant hagent => ?_
    cases ev with
    | proceed i env =>
      simp only [Killing.gated] at hev
      split at hev
      · rename_i c₁ hc₁
        cases hev
        obtain rfl : c₁ = c := by simpa [hc] using hc₁.symm
        obtain ⟨e, he⟩ := refusal_of_stored hstored hagent
        rw [← htenant] at he
        rw [he]
        cases env.refusal with
        | none => exact ⟨e, rfl⟩
        | some e' => exact ⟨e', rfl⟩
      · rename_i hno
        cases hev
        exact absurd hc (hno c)
    | _ => cases hev

theorem Killing.Draining.world (h : s.Draining) (ev : Event) :
    (s.step srv (.world ev)).Draining := by
  have hwrites : Writes srv _ _ s.world.db _ := s.world.step_writes (s.gated srv ev)
  refine ⟨h.stored, fun j c hc => gated_step h.gated h.stored ev j c hc,
    hwrites.sealed h.db fun ctx run hins => ?_, h.phase.mono (shrinks_of_writes hwrites ?_)⟩
  · obtain ⟨i, env, c, -, -, hinserts⟩ := hins
    exact Create.sealed_row hinserts
  · rintro ctx run ⟨i, env, c, -, hc, hinserts⟩ ⟨htenant, hagent⟩
    obtain ⟨-, -, hrunAgent, -⟩ := Create.inserts_run hinserts
    have hadmitted : c.phase.admitted := by
      obtain ⟨-, ⟨_, hphase, -⟩ | ⟨hphase, -⟩⟩ := hinserts <;> rw [hphase] <;> rfl
    refine h.gated i c hc hadmitted ⟨?_, ?_⟩
    · rw [← hinserts.1]
      exact htenant
    · rw [← hrunAgent]
      exact hagent

/-! ## Steps of the activation -/

theorem Drain.Stage.nextStatus (h : d.Stage scope db)
    (hdone : ∀ runId r, OpenIn (Covered scope) db runId r → r.status ≠ d.status) :
    d.nextStatus.Holds scope db := by
  unfold Drain.nextStatus
  rcases h with ⟨hstatus, hrest⟩ | ⟨hstatus, hrest, hnone⟩
  · rw [hrest]
    exact .inr ⟨rfl, rfl, fun runId r hr => hstatus ▸ hdone runId r hr⟩
  · rw [hrest]
    intro runId r hr
    exact hdone runId r hr ((status_of_open hr.2.2 (hnone runId r hr)).trans hstatus.symm)

theorem Drain.Stage.open_status (h : d.Stage scope db) : d.status.terminal = false := by
  rcases h with ⟨hstatus, -⟩ | ⟨hstatus, -⟩ <;> rw [hstatus] <;> rfl

theorem Drain.Stage.found (h : d.Stage scope db) {runs : List Run}
    (hfind : d.find scope env db = .ok runs)
    (hlast : d.page + 1 < killDrainMaxPages ∨ runs.length < killDrainPageSize) :
    (d.found? (.ok runs)).Holds scope db := by
  have hok : .ok (searchRuns { tenant := scope.1, system := true }
      { status := some d.status, agentId := scope.2, limit := killDrainPageSize } db) =
      (.ok runs : Except StoreError (List Run)) := Env.query_ok hfind
  have hruns := Except.ok.inj hok
  have hcovers : runs.length < killDrainPageSize → ∀ runId r, OpenIn (Covered scope) db runId r →
      r.status = d.status → r ∈ runs := by
    intro hlt runId r hr hstatus
    have hkey := Table.key_of_get? hr.1
    rw [← hruns] at hlt ⊢
    refine mem_searchRuns hlt (hkey ▸ hr.1) ?_
    simp only [RunSearch.accepts, Ctx.sees, Bool.true_or, Option.all_some, hstatus, decide_true,
      Bool.true_and, Bool.and_true, Bool.or_eq_true, decide_eq_true_eq]
    exact hr.2.1.2
  cases hcons : runs with
  | nil =>
    refine h.nextStatus fun runId r hr hstatus => ?_
    have := hcovers (by rw [hcons]; decide) runId r hr hstatus
    simp [hcons] at this
  | cons =>
    refine ⟨h, ⟨by simp, by simp, fun r hr => ?_, fun hfound runId r hr hstatus => ?_, ?_⟩⟩
    · rw [← hcons, ← hruns] at hr
      have haccepts := (of_mem_searchRuns hr).2
      simp only [RunSearch.accepts, Option.all_some, Bool.and_eq_true, decide_eq_true_eq] at haccepts
      exact haccepts.1.1.2
    · rw [← hcons] at hfound ⊢
      exact List.mem_map.2 ⟨r, hcovers hfound runId r hr hstatus, Table.key_of_get? hr.1⟩
    · rw [← hcons]
      exact hlast.symm

theorem Drain.Page.nextRun (hstage : d.Stage scope db)
    (h : d.Page scope db (d.left.map Run.runId)) : (d.nextRun scope).Holds scope db := by
  unfold Drain.nextRun
  cases hleft : d.left with
  | nil =>
    rw [hleft] at h
    have hcount : d.pageCancelled = d.found := by simpa using h.counted
    have hpositive := h.positive
    dsimp only
    rw [if_neg (by omega)]
    by_cases hfound : d.found < killDrainPageSize
    · rw [if_pos hfound]
      refine hstage.nextStatus fun runId r hr hstatus => ?_
      have := h.covers hfound runId r hr hstatus
      simp at this
    · rw [if_neg hfound]
      unfold Drain.nextPage
      rw [if_pos (h.last.resolve_left hfound)]
      exact hstage
  | cons r left =>
    rw [hleft] at h
    have hopen : r.status.terminal = false := by
      rw [h.listed r (by simp [hleft])]
      exact hstage.open_status
    dsimp only
    rw [if_neg (by simp [hopen])]
    refine ⟨hstage, ⟨?_, h.positive, fun r' hr' => h.listed r' (by simp [hleft, hr']), h.covers,
      h.last⟩, ?_⟩
    · exact h.counted
    · simp [Cancellation.Closes, Cancellation.single, hopen]

theorem Drain.Page.cancelled {call : Cancellation} (hstage : d.Stage scope db)
    (h : d.Page scope db (call.runId :: d.left.map Run.runId))
    (hcloses : call.Closes (Covered scope) db) (hfailed : call.failed = false) :
    (d.cancelled call).Holds scope db := by
  unfold Drain.cancelled
  cases hphase : call.phase with
  | done error =>
    cases error with
    | some => simp [Cancellation.failed, hphase] at hfailed
    | none =>
      have hclosed : ∀ r, ¬ OpenIn (Covered scope) db call.runId r := by
        simpa [Cancellation.Closes, hphase] using hcloses
      refine ⟨hstage, ⟨?_, h.positive, h.listed, fun hfound runId r hr hstatus => ?_, h.last⟩⟩
      · have := h.counted
        simp only [List.length_cons, List.length_map] at this ⊢
        omega
      · rcases List.mem_cons.1 (h.covers hfound runId r hr hstatus) with rfl | hmem
        · exact absurd hr (hclosed r)
        · exact hmem
  | load | complete | recheck | queueCancel | delete => exact ⟨hstage, h, hcloses⟩

theorem Killing.Draining.activate (h : s.Draining)
    (hfits : s.fits srv (.activation env)) : (s.step srv (.activation env)).Draining := by
  have hphase := h.phase
  change (s.activate srv env).Draining
  unfold Killing.activate
  cases hp : s.activation.phase with
  | upsert =>
    rw [hp] at hphase
    exact hphase.elim
  | search d =>
    rw [hp] at hphase
    refine ⟨h.stored, h.gated, h.db, ?_⟩
    simp only [Killing.fits, hp] at hfits
    change (d.found? (d.find s.activation.body.scope env s.world.db)).Holds s.activation.body.scope
      s.world.db
    cases hfind : d.find s.activation.body.scope env s.world.db with
    | error => simp [hfind] at hfits
    | ok =>
      rw [hfind] at hfits
      exact Drain.Stage.found hphase hfind (by simpa using hfits)
  | page =>
    rw [hp] at hphase
    exact ⟨h.stored, h.gated, h.db, Drain.Page.nextRun hphase.1 hphase.2⟩
  | cancel d call =>
    rw [hp] at hphase
    obtain ⟨hstage, hpage, hcloses⟩ := hphase
    have hwrites : Writes srv (fun _ => False) (fun _ _ => False) s.world.db
      (call.next srv env s.world.db).2 := call.next_writes
    have hshrinks : Shrinks s.activation.body.scope s.world.db (call.next srv env s.world.db).2 :=
      shrinks_of_writes hwrites fun _ _ h => h.elim
    refine ⟨h.stored, h.gated, hwrites.sealed h.db fun _ _ h => h.elim, ?_⟩
    refine Drain.Page.cancelled (hstage.mono hshrinks) ?_ (hcloses.next h.db) ?_
    · rw [call.next_runId]
      exact hpage.mono hstage hshrinks
    · simpa [Killing.fits, hp] using hfits
  | reload =>
    rw [hp] at hphase
    dsimp only
    split
    · exact ⟨h.stored, h.gated, h.db, trivial⟩
    · exact ⟨h.stored, h.gated, h.db, hphase⟩
  | returned => exact h

/-- What holds before the switch is stored, and after. -/
inductive Killing.Inv (s : Killing) : Prop
  | before (hphase : s.activation.phase = .upsert) (hdb : s.world.db.Sealed)
    (hpause : s.activation.body.pauseOnly = false)
  | refused (e : StoreError) (hphase : s.activation.phase = .returned (some e))
  | draining (h : s.Draining)

/-- The switch is stored. -/
theorem draining_of_upsert (hphase : s.activation.phase = .upsert) (hdb : s.world.db.Sealed)
    (hpause : s.activation.body.pauseOnly = false)
    (hfits : s.fits srv (.activation env)) : (s.step srv (.activation env)).Inv := by
  change (s.activate srv env).Inv
  unfold Killing.activate
  simp only [hphase]
  split
  · rename_i e _
    exact .refused e rfl
  · rename_i u hok
    have hstored := KillRequest.stored_of_handle_activate hok
    refine .draining ⟨hstored, fun j c hc => ?_, hdb, ?_⟩
    · simp only [Killing.fits, hphase, List.all_eq_true] at hfits
      have hno := hfits _ (List.mem_of_getElem? hc)
      intro hadmitted hcovered
      have hpending : Killing.pendingInsert s.activation.body.scope (.create c) := by
        simp only [Killing.pendingInsert, hadmitted, Bool.true_and, Bool.and_eq_true,
          decide_eq_true_eq, Bool.or_eq_true]
        exact hcovered
      simp [hpending] at hno
    · simp only [hpause, Bool.false_eq_true, if_false]
      exact .inl ⟨rfl, rfl⟩

theorem Killing.Inv.step {ev : KillEvent} (h : s.Inv) (hfits : s.fits srv ev) :
    (s.step srv ev).Inv := by
  cases ev with
  | world ev =>
    cases h with
    | before hphase hdb hpause =>
      refine .before hphase (World.step_writes s.world _ |>.sealed hdb fun ctx run hins => ?_) hpause
      obtain ⟨i, env, c, -, -, hinserts⟩ := hins
      exact Create.sealed_row hinserts
    | refused e hphase => exact .refused e hphase
    | draining h => exact .draining (h.world ev)
  | admin r =>
    cases h with
    | before hphase hdb hpause => exact .before hphase hdb hpause
    | refused e hphase => exact .refused e hphase
    | draining h =>
      refine .draining ⟨?_, h.gated, h.db, h.phase⟩
      have hactive : (s.step srv (.admin r)).active := by
        simp only [Killing.fits] at hfits
        split at hfits
        · rename_i hp
          have hphase := h.phase
          rw [hp] at hphase
          exact hphase.elim
        · exact hfits
      obtain ⟨k, hk, hscope⟩ := (Option.any_eq_true _ _).1 hactive
      exact ⟨k, by simpa using hscope, hk⟩
  | activation env =>
    cases h with
    | before hphase hdb hpause => exact draining_of_upsert hphase hdb hpause hfits
    | refused e hphase =>
      refine .refused e ?_
      change (s.activate srv env).activation.phase = _
      unfold Killing.activate
      simp [hphase]
    | draining h => exact .draining (h.activate hfits)

/-- In every interleaving of requests, attempts, completions and other steps with the activation of
a kill switch that does not only pause, if the steps fit : once the activation returned without an
error, every run of its scope is terminal, as long as the switch stays active. -/
theorem kill_drains_scope (srv : Server) (s : Killing) (hphase : s.activation.phase = .upsert)
    (hpause : s.activation.body.pauseOnly = false) (hsealed : s.world.db.Sealed)
    (events : List KillEvent)
    (hfits : Trace.Every (Killing.step srv) (fun ev s => s.fits srv ev = true) events s)
    (hreturned : (Trace.run (Killing.step srv) events s).activation.phase = .returned none)
    (r : Run) (hr : r ∈ (Trace.run (Killing.step srv) events s).world.db.runs.rows)
    (hcovered : Covered (Trace.run (Killing.step srv) events s).activation.body.scope r) :
    r.status.terminal = true := by
  have hstep : ∀ ev (s : Killing), s.fits srv ev → s.Inv → (s.step srv ev).Inv :=
    fun ev s hfit h => h.step hfit
  cases Trace.invariant hstep hfits (.before hphase hsealed hpause) with
  | before hphase' | refused e hphase' => rw [hreturned] at hphase'; cases hphase'
  | draining h =>
    have hnone := h.phase
    rw [hreturned] at hnone
    by_contra hopen
    exact hnone r.runId r ⟨Table.mem_iff_get?.1 hr, hcovered, by simpa using hopen⟩

/-- The activation of a switch for the default tenant. -/
def tenantKill (world : World) : Killing :=
  { world := world, kills := .empty, activation := { body := { tenantId := "default" } } }

theorem sealed_fresh : (Db.single (Thread.fresh "t") (Run.fresh "r" "t")).Sealed := by
  intro runId r hr hsome
  obtain ⟨hmem, -⟩ := Table.get?_eq_some_iff.1 hr
  obtain rfl := List.mem_singleton.1 hmem
  cases hsome

/-- A pending run is found and cancelled. -/
theorem kill_drains_pending :
    let s := tenantKill { db := Db.single (Thread.fresh "t") (Run.fresh "r" "t") }
    let final := Trace.run (Killing.step {}) (List.replicate 8 (.activation {})) s
    final.world.db.runs.rows.length = 1 ∧
      ∀ r ∈ final.world.db.runs.rows, Covered final.activation.body.scope r →
        r.status.terminal = true :=
  ⟨by decide +kernel, kill_drains_scope {}
    (tenantKill { db := Db.single (Thread.fresh "t") (Run.fresh "r" "t") }) rfl rfl sealed_fresh
    (List.replicate 8 (.activation {})) (by decide +kernel) (by rfl)⟩

/-- A request passes the gate, the switch is stored and the drain finds nothing, and then the request
inserts its run and is answered. The run is pending while the switch is active. -/
theorem kill_drain_misses_create :
    let final := Trace.run (Killing.step {})
      ([.world (.create {} { agentId := "agent" } "t" "r" ""), .world (.proceed 0 {}),
        .world (.proceed 0 {})] ++ List.replicate 4 (.activation {}) ++
        List.replicate 6 (.world (.proceed 0 {}))) (tenantKill {})
    final.activation.phase = .returned none ∧ final.active = true ∧
      final.world.requests.all Request.answered = true ∧
      (final.world.db.runs.rows.any fun r => r.status = .pending && r.tenantId = "default") := by
  refine ⟨by rfl, by decide +kernel, by decide +kernel, by decide +kernel⟩

end Runkite
