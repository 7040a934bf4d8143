import Runkite.StepWrites

/-!
# The ceilings on runs at a time

`admission_limits` gives the number of runs that a tenant, and each of its agents, may have pending
or running. Only the transaction that creates a run counts and inserts; every other write of the
store is made without a look at the ceilings, so none of them may add to what is counted.

`Admitted` is what a creation has established about the runs in the store before it inserts its own
(`World.step_admitted`). Under fixed ceilings the counts stay within them
(`concurrency_caps_hold`).
-/

open Transaction (Body Driver transact)

namespace Runkite

/-! ## What a passed admission says -/

/-- The runs that `countActive` counts. -/
def Db.activeRuns (db : Db) (tenantId agentId : String) : ℕ :=
  db.runs.count fun r =>
    r.status.active && r.tenantId = tenantId && (agentId = "" || r.agentId = agentId)

/-- The runs of the day of a tenant. -/
def Db.dayRuns (db : Db) (since tenantId : String) : List Run :=
  db.runs.rows.filter fun r => since ≤ r.createdAt && r.tenantId = tenantId

/-- The runs that `countSince` counts, where none has metadata that it cannot read. -/
def Db.countedSince (db : Db) (since tenantId agentId : String) : ℕ :=
  (db.dayRuns since tenantId).countP fun r =>
    r.simulation = some false && (agentId = "" || r.agentId = agentId)

/-- The ceilings leave room for one more run. -/
structure Admitted (caps : RunAdmissionCaps) (tenantId agentId : String) (db : Db) : Prop where
  tenantConcurrent : 0 < caps.tenantConcurrent →
    (db.activeRuns tenantId "" : ℤ) < caps.tenantConcurrent
  agentConcurrent : 0 < caps.agentConcurrent →
    (db.activeRuns tenantId agentId : ℤ) < caps.agentConcurrent
  tenantDaily : 0 < caps.tenantDaily →
    (db.dayRuns caps.dayStart tenantId).all (fun r => r.simulation.isSome) = true ∧
      (db.countedSince caps.dayStart tenantId "" : ℤ) < caps.tenantDaily
  agentDaily : 0 < caps.agentDaily →
    (db.dayRuns caps.dayStart tenantId).all (fun r => r.simulation.isSome) = true ∧
      (db.countedSince caps.dayStart tenantId agentId : ℤ) < caps.agentDaily

variable {ctx : Ctx} {run : NewRun} {caps : RunAdmissionCaps} {claim : Bool} {db db' : Db}
  {tenantId agentId : String} {u : Unit}

theorem countSince_ok {since tenantId agentId : String} {n : ℕ}
    (h : (if ((db.dayRuns since tenantId).any fun r => r.simulation = none) then
        (.error (.statement "malformed JSON") : Except StoreError ℕ)
      else .ok ((db.dayRuns since tenantId).countP fun r =>
        r.simulation = some false && (agentId = "" || r.agentId = agentId))) = .ok n) :
    (db.dayRuns since tenantId).all (fun r => r.simulation.isSome) ∧
      db.countedSince since tenantId agentId = n := by
  split_ifs at h with hany
  refine ⟨?_, Except.ok.inj h⟩
  rw [List.all_eq_true]
  intro r hr
  by_contra hnone
  exact hany (List.any_eq_true.2 ⟨r, hr, by simpa using hnone⟩)

theorem admitted_of_run
    (h : (evaluateRunAdmission (some caps) tenantId agentId).run [] db = .ok (u, db')) :
    Admitted caps tenantId agentId db := by
  simp only [evaluateRunAdmission, Body.run_bind_ok] at h
  obtain ⟨_, _, h₁, _, _, h₂, _, _, h₃, h₄⟩ := h
  obtain ⟨rfl, hroom₁⟩ := run_checkCeiling_ok h₁
  obtain ⟨rfl, hroom₂⟩ := run_checkCeiling_ok h₂
  obtain ⟨rfl, hroom₃⟩ := run_checkCeiling_ok h₃
  obtain ⟨-, hroom₄⟩ := run_checkCeiling_ok h₄
  constructor
  · intro hpos
    obtain ⟨n, hn, hlt⟩ := hroom₁ hpos
    cases hn
    exact hlt
  · intro hpos
    obtain ⟨n, hn, hlt⟩ := hroom₂ hpos
    cases hn
    exact hlt
  · intro hpos
    obtain ⟨n, hn, hlt⟩ := hroom₃ hpos
    obtain ⟨hall, rfl⟩ := countSince_ok hn
    exact ⟨hall, hlt⟩
  · intro hpos
    obtain ⟨n, hn, hlt⟩ := hroom₄ hpos
    obtain ⟨hall, rfl⟩ := countSince_ok hn
    exact ⟨hall, hlt⟩

theorem Admitted.of_runs_eq (hruns : db'.runs = db.runs)
    (h : Admitted caps tenantId agentId db') : Admitted caps tenantId agentId db := by
  have hactive : ∀ a, db'.activeRuns tenantId a = db.activeRuns tenantId a := by
    intro a
    rw [Db.activeRuns, Db.activeRuns, hruns]
  have hday : db'.dayRuns caps.dayStart tenantId = db.dayRuns caps.dayStart tenantId := by
    rw [Db.dayRuns, Db.dayRuns, hruns]
  have hcounted : ∀ a, db'.countedSince caps.dayStart tenantId a =
      db.countedSince caps.dayStart tenantId a := by
    intro a
    rw [Db.countedSince, Db.countedSince, hday]
  obtain ⟨htenant, hagent, htenantDay, hagentDay⟩ := h
  rw [hactive] at htenant hagent
  rw [hday, hcounted] at htenantDay hagentDay
  exact ⟨htenant, hagent, htenantDay, hagentDay⟩

/-- A creation that returns has passed the ceilings. -/
theorem admitted_of_createRunBody {afterInsert : Body Db StoreError Unit}
    (h : (createRunBody ctx run (some caps) claim afterInsert).run [] db = .ok (u, db')) :
    Admitted caps ctx.tenant run.agentId db := by
  obtain ⟨_, _, _, -, -, hruns, hadm, -⟩ := run_createRunBody_ok h
  exact (admitted_of_run hadm).of_runs_eq hruns

/-- A creation changes nothing, or has passed the ceilings. -/
theorem createRunAdmitted_admitted (ctx : Ctx) (run : NewRun) (caps : RunAdmissionCaps)
    (driver : Driver StoreError) (db : Db) :
    (createRunAdmitted ctx run (some caps) driver db).2 = db ∨
      Admitted caps ctx.tenant run.agentId db := by
  unfold createRunAdmitted
  exact (Transaction.transact_snd _ _ _ _).imp And.right fun ⟨_, _, hrun, _⟩ =>
    admitted_of_createRunBody hrun

theorem createCachedRun_admitted (d : Dialect) (ctx : Ctx) (run : NewRun) (caps : RunAdmissionCaps)
    (now : String) (driver : Driver StoreError) (db : Db) :
    (createCachedRun d ctx run (some caps) now driver db).2 = db ∨
      Admitted caps ctx.tenant run.agentId db := by
  unfold createCachedRun
  rcases hprep : prepareCachedRun run with e | ⟨pending, c⟩
  · exact .inl rfl
  rw [← (prepareCachedRun_keeps hprep).1]
  exact (Transaction.transact_snd _ _ _ _).imp And.right fun ⟨_, _, hrun, _⟩ =>
    admitted_of_createRunBody hrun

/-! ## Steps of the world -/

/-- A request that makes its next call does so under ceilings that meet the condition. -/
def Event.under (p : RunAdmissionCaps → Bool) : Event → Bool
  | .proceed _ env => env.caps.any p
  | _ => true

variable {srv : Server} {w : World} {ev : Event} {p : RunAdmissionCaps → Bool}

theorem Create.next_admitted (srv : Server) {env : Env} {caps : RunAdmissionCaps} (db : Db)
    (c : Create) (hcaps : env.caps = some caps) : (∀ ctx run, ¬ c.inserts env ctx run) ∨
      (c.next srv env db).2 = db ∨ Admitted caps c.ctx.tenant c.req.agentId db := by
  by_cases hcached : c.phase = .cached
  · right
    simp only [Create.next, hcached, Create.tryServeCached, hcaps]
    split
    · rename_i output _ _
      have h := createCachedRun_admitted srv.dialect c.ctx (c.cachedRun env output) caps env.now
        env.driver db
      split <;> rename_i heq <;> rw [heq] at h <;> exact h
    · exact .inl rfl
  · by_cases hinsert : ∃ parent, c.phase = .insert parent
    · right
      obtain ⟨parent, hphase⟩ := hinsert
      simp only [Create.next, hphase, hcaps]
      have h := createRunAdmitted_admitted c.ctx (c.newRun env parent) caps env.driver db
      split <;> rename_i heq <;> rw [heq] at h <;> exact h
    · left
      rintro ctx run ⟨-, ⟨parent, hphase, -⟩ | ⟨hphase, -⟩⟩
      · exact hinsert ⟨parent, hphase⟩
      · exact hcached hphase

theorem World.step_admitted (srv : Server) (w : World) (hev : ev.under p) :
    (∀ ctx run, ¬ w.inserts ev ctx run) ∨ (w.step srv ev).db = w.db ∨
      ∃ caps tenantId agentId runId, p caps ∧ Admitted caps tenantId agentId w.db ∧
        ∀ ctx run, w.inserts ev ctx run →
          ctx.tenant = tenantId ∧ run.agentId = agentId ∧ run.runId = runId := by
  by_cases hcreate : ∃ i env c, ev = .proceed i env ∧ w.requests[i]? = some (.create c)
  · obtain ⟨i, env, c, rfl, hc⟩ := hcreate
    obtain ⟨caps, hcaps, hp⟩ := (Option.any_eq_true _ _).1 hev
    have hins : ∀ ctx run, w.inserts (.proceed i env) ctx run → c.inserts env ctx run := by
      rintro ctx run ⟨j, env', c', heq, hc', h⟩
      obtain ⟨rfl, rfl⟩ := Event.proceed.inj heq
      rw [hc, Option.some.injEq, Request.create.injEq] at hc'
      exact hc' ▸ h
    have hdb : (w.step srv (.proceed i env)).db = (c.next srv env w.db).2 := by
      simp [World.step, hc, Request.next, Prod.map_snd, id]
    rcases c.next_admitted srv w.db hcaps with hnone | hsame | hadmitted
    · exact .inl fun ctx run h => hnone ctx run (hins ctx run h)
    · exact .inr (.inl (hdb.trans hsame))
    · refine .inr (.inr ⟨caps, _, _, c.runId, hp, hadmitted, fun ctx run h => ?_⟩)
      obtain ⟨rfl, ⟨_, -, rfl⟩ | ⟨-, _, rfl⟩⟩ := hins ctx run h
      · exact ⟨rfl, rfl, rfl⟩
      · exact ⟨rfl, rfl, rfl⟩
  · left
    rintro ctx run ⟨i, env, c, heq, hc, -⟩
    exact hcreate ⟨i, env, c, heq, hc⟩

/-! ## Runs at a time -/

theorem RunStatus.active_iff (s : RunStatus) : s.active ↔ s.terminal = false := by
  cases s <;> decide

/-- No write makes a run active that was not. -/
theorem RowStep.active {rolledBack : Prop} {r r' : Run} (h : RowStep rolledBack r r')
    (hr' : r'.status.active) : r.status.active := by
  cases h with
  | same => exact hr'
  | begun now hl ht hraw => exact (RunStatus.active_iff _).2 ht
  | completed output error now hl ht hst hraw => exact (RunStatus.active_iff _).2 ht
  | failed => cases hr'

/-- The active runs of a tenant, of all its agents or of those that `p` picks. -/
def Db.active (db : Db) (tenantId : String) (p : String → Bool) : ℕ :=
  db.runs.count fun r => r.status.active && r.tenantId = tenantId && p r.agentId

theorem Writes.count_le {rolledBack : String → Prop} {inserted : Ctx → NewRun → Prop} {db db' : Db}
    (h : Writes srv rolledBack inserted db db') (q : Run → Bool) (ks : List String)
    (hrow : ∀ k r r', db.runs.get? k = some r → RowStep (rolledBack k) r r' → q r' → q r)
    (hnew : ∀ ctx run r, inserted ctx run → run.Inserted ctx r → q r → run.runId ∈ ks) :
    db'.runs.count q ≤ db.runs.count q + ks.length := by
  refine Table.count_le_add ks fun k r' hk hr' hq => ?_
  cases hr : db.runs.get? k with
  | none =>
    obtain ⟨ctx, run, t, hrun, rfl, hinserted, -⟩ := h.newRow hr hr'
    exact absurd (hnew ctx run r' hrun hinserted hq) hk
  | some r =>
    exact ⟨r, rfl, hrow k r r' hr (h.rowStep_kept hr hr') hq⟩

/-- A step adds nothing to a count of runs of a tenant, or one run that the ceilings have let
through. -/
theorem World.count_step (srv : Server) (w : World)
    (hev : ev.under p) (tenantId : String) (a : String → Bool) (q : Run → Bool)
    (hq : ∀ r, q r → r.tenantId = tenantId ∧ a r.agentId)
    (hrow : ∀ k r r', w.db.runs.get? k = some r → RowStep (w.rollsBack ev k) r r' →
      q r' → q r) :
    (w.step srv ev).db.runs.count q ≤ w.db.runs.count q ∨
      (w.step srv ev).db.runs.count q ≤ w.db.runs.count q + 1 ∧
        ∃ caps agentId, p caps ∧ a agentId ∧ Admitted caps tenantId agentId w.db := by
  have hwrites := @World.step_writes srv w ev
  rcases w.step_admitted srv hev with
    hnone | hsame | ⟨caps, tenantId', agentId, runId, hp, hadmitted, hinserts⟩
  · exact .inl (hwrites.count_le q [] hrow fun ctx run r h => absurd h (hnone ctx run))
  · exact .inl (by rw [hsame])
  · by_cases hmatch : tenantId' = tenantId ∧ a agentId
    · obtain ⟨rfl, ha⟩ := hmatch
      refine .inr ⟨hwrites.count_le q [runId] hrow fun ctx run r h _ _ => ?_, caps, agentId, hp, ha,
        hadmitted⟩
      rw [(hinserts ctx run h).2.2]
      exact List.mem_singleton_self runId
    · refine .inl (hwrites.count_le q [] hrow fun ctx run r h hinserted hqr => absurd ?_ hmatch)
      obtain ⟨hten, hag, -⟩ := hinserts ctx run h
      obtain ⟨htenant, hagent⟩ := hq r hqr
      exact ⟨by rw [← hten, ← hinserted.tenantId, htenant], by rw [← hag, ← hinserted.agentId, hagent]⟩

theorem Db.active_all (db : Db) (tenantId : String) :
    db.active tenantId (fun _ => true) = db.activeRuns tenantId "" := by
  simp [Db.active, Db.activeRuns]

/-- A count for no agent in particular counts all of them. -/
theorem Db.active_le_activeRuns (db : Db) (tenantId agentId : String) :
    db.active tenantId (fun a => a = agentId) ≤ db.activeRuns tenantId agentId := by
  refine List.countP_mono_left fun r _ hr => ?_
  simp only [Bool.and_eq_true, decide_eq_true_eq, Bool.or_eq_true] at hr ⊢
  exact ⟨hr.1, .inr hr.2⟩

theorem World.active_step (srv : Server) (w : World)
    (hev : ev.under p) (tenantId : String) (a : String → Bool) :
    (w.step srv ev).db.active tenantId a ≤ w.db.active tenantId a ∨
      (w.step srv ev).db.active tenantId a ≤ w.db.active tenantId a + 1 ∧
        ∃ caps agentId, p caps ∧ a agentId ∧ Admitted caps tenantId agentId w.db := by
  refine w.count_step srv hev tenantId a _ (fun r hr => ?_) fun k r r' _ hstep hr' => ?_
  · simp only [Bool.and_eq_true, decide_eq_true_eq] at hr
    exact ⟨hr.1.2, hr.2⟩
  · simp only [Bool.and_eq_true, decide_eq_true_eq] at hr' ⊢
    obtain ⟨htenant, -, hagent, -⟩ := hstep.keeps
    exact ⟨⟨hstep.active hr'.1.1, htenant ▸ hr'.1.2⟩, hagent ▸ hr'.2⟩

/-- The active runs of every tenant, and of each of its agents, are within the ceilings that are
positive. -/
structure WithinCaps (tenantCap agentCap : ℤ) (db : Db) : Prop where
  tenant : 0 < tenantCap → ∀ tenantId, (db.active tenantId (fun _ => true) : ℤ) ≤ tenantCap
  agent : 0 < agentCap → ∀ tenantId agentId,
    (db.active tenantId (fun a => a = agentId) : ℤ) ≤ agentCap

/-- The ceilings on runs at a time are these. -/
def fixedCaps (tenantCap agentCap : ℤ) (caps : RunAdmissionCaps) : Bool :=
  caps.tenantConcurrent = tenantCap && caps.agentConcurrent = agentCap

theorem WithinCaps.step {tenantCap agentCap : ℤ} (h : WithinCaps tenantCap agentCap w.db)
    (hev : ev.under (fixedCaps tenantCap agentCap)) :
    WithinCaps tenantCap agentCap (w.step srv ev).db where
  tenant hpos tenantId := by
    have hbefore := h.tenant hpos tenantId
    rcases w.active_step srv hev tenantId fun _ => true with
      hle | ⟨hle, caps, agentId, hcaps, -, hadmitted⟩
    · omega
    · simp only [fixedCaps, Bool.and_eq_true, decide_eq_true_eq] at hcaps
      have hroom := hadmitted.tenantConcurrent (hcaps.1 ▸ hpos)
      rw [hcaps.1, ← Db.active_all] at hroom
      omega
  agent hpos tenantId agentId := by
    have hbefore := h.agent hpos tenantId agentId
    rcases w.active_step srv hev tenantId fun a => a = agentId with
      hle | ⟨hle, caps, agentId', hcaps, hagent, hadmitted⟩
    · omega
    · obtain rfl := of_decide_eq_true hagent
      simp only [fixedCaps, Bool.and_eq_true, decide_eq_true_eq] at hcaps
      have hroom := hadmitted.agentConcurrent (hcaps.2 ▸ hpos)
      rw [hcaps.2] at hroom
      have hle' := w.db.active_le_activeRuns tenantId agentId'
      omega

theorem concurrency_caps_hold (srv : Server) (tenantCap agentCap : ℤ) (w : World)
    (evs : List Event) (hstart : WithinCaps tenantCap agentCap w.db)
    (hcaps : ∀ ev ∈ evs, ev.under (fixedCaps tenantCap agentCap) = true) :
    WithinCaps tenantCap agentCap (Trace.run (World.step srv) evs w).db := by
  have hevery : Trace.Every (World.step srv)
      (fun ev _ => ev.under (fixedCaps tenantCap agentCap)) evs w := Trace.every_of_mem hcaps
  exact @Trace.invariant _ _ _ _ (fun w => WithinCaps tenantCap agentCap w.db)
    (fun _ _ hev h => h.step hev) _ _ hevery hstart

/-- Two requests of a tenant that may have one run at a time, each in a thread of its own. -/
def twoCreates : List Event :=
  let env : Env := { caps := some { tenantConcurrent := 1 } }
  [.create {} { agentId := "a", ifNotExists := .create } "t1" "r1" "now",
    .create {} { agentId := "a", ifNotExists := .create } "t2" "r2" "now"] ++
  List.replicate 8 (.proceed 0 env) ++ List.replicate 8 (.proceed 1 env)

theorem concurrency_caps_hold_twice :
    (Trace.run (World.step {}) twoCreates {}).db.active "default" (fun _ => true) = 1 ∧
      WithinCaps 1 0 (Trace.run (World.step {}) twoCreates {}).db :=
  ⟨by decide +kernel, concurrency_caps_hold {} 1 0 {} twoCreates
    ⟨fun _ _ => (by decide : (0 : ℤ) ≤ 1), fun h => absurd h (by decide)⟩ (by decide +kernel)⟩

end Runkite
