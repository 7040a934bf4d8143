import Runkite.SpendGrows

/-!
# Budget checks beside runs that finish

`checkBudgetAdmission` sums the usage of the day, counts the runs and sums the open holds, in a query
each, for the tenant and then for the agent. Finalizing a run writes its usage and then releases its
hold. A check that sums the usage before the write and the holds after the release counts the run in
neither.

`spend_counted` : each snapshot has the hold or the usage of every run whose hold was open when the
check began, unless a hold is released under a check like this (`finished_run_missed`).
-/

open Json (Value)
open Transaction (Driver query write)

namespace Runkite

/-! ## Finalizations -/

/-- What finalizations read : the prices, the rows of the finished runs and their outputs. -/
structure Ledger where
  pricebook : Pricebook
  db : Db
  output : String → Output
  /-- `tenant_id` and `updated_at` are set. -/
  dated : ∀ r ∈ db.runs.rows, r.tenantId ≠ "" ∧ r.updatedAt ≠ ""

/-- What surrounds one call to the store. -/
structure SpendCall where
  ctx : Ctx := {}
  now : String := ""
  driver : Driver StoreError := {}

/-- `finalizeCommittedRun`, by the call it makes next. -/
inductive FinalizePhase where
  | usage
  | release
  | done (error : Option StoreError)

structure Finalization where
  runId : String
  phase : FinalizePhase := .usage

def releaseHold (runId : String) (holds : OpenHolds) : OpenHolds :=
  if runId = "" then holds else holds.delete fun h => h.hold.runId = runId

/-- Where a call that may fail leaves a finalization. -/
def FinalizePhase.after (phase : FinalizePhase) : Except StoreError Unit → FinalizePhase
  | .ok _ => phase
  | .error e => .done (some e)

/-- One call of `finalizeCommittedRun`, up to the release of the hold. -/
def Finalization.next (ledger : Ledger) (call : SpendCall) (f : Finalization) (s : Spend) :
    FinalizePhase × Spend :=
  match f.phase with
  | .usage =>
    match (ledger.db.runs.get? f.runId).bind fun run =>
      terminalUsage ledger.pricebook run (ledger.output f.runId) with
    | none => (.release, s)
    | some ev =>
      let (result, usages) := write call.driver
        (fun usages => .ok ((), writeUsageEvent call.ctx call.now ev usages)) s.usages
      (FinalizePhase.release.after result, { s with usages })
  | .release =>
    let (result, holds) := write call.driver (fun holds => .ok ((), releaseHold f.runId holds)) s.holds
    ((FinalizePhase.done none).after result, { s with holds })
  | .done error => (.done error, s)

/-! ## Checks -/

inductive BudgetAnswer where
  | allowed
  | refused (reason : String)
  /-- `"budget lookup failed: "` and the error. -/
  | lookupFailed (e : StoreError)

/-- `checkBudgetAdmission`, by the query it makes next, with the usage it has read. -/
inductive CheckPhase where
  | usage
  | count (rows : List UsageEvent) (totals : UsageTotals)
  | holds (rows : List UsageEvent) (totals : UsageTotals) (runs : ℕ)
  | done (answer : BudgetAnswer)

structure Check where
  tenantId : String
  agentId : String
  since : String
  till : String
  /-- The caps that are left to evaluate. -/
  levels : List (AdmissionScope × BudgetCap)
  /-- The holds that were open when the check began. -/
  began : List OpenHold
  phase : CheckPhase

namespace Check

def scope (c : Check) (level : AdmissionScope) : Scope where
  tenantId := c.tenantId
  agentId :=
    match level with
    | .tenant => ""
    | .agent => c.agentId
  since := c.since
  till := c.till

/-- The levels that have a cap, the tenant first. -/
def levelsOf (cfg : Budgets) (tenantId agentId : String) : List (AdmissionScope × BudgetCap) :=
  let (tenantCap, agentCap) := cfg.lookupCaps tenantId agentId
  [tenantCap.map fun cap => (.tenant, cap), agentCap.map fun cap => (.agent, cap)].reduceOption

/-- The check goes on with the levels that are left. -/
def goOn (c : Check) (rest : List (AdmissionScope × BudgetCap)) : Check :=
  { c with levels := rest, phase := if rest.isEmpty then .done .allowed else .usage }

def arrive (cfg : Budgets) (tenantId agentId since till : String) (holds : OpenHolds) : Check :=
  goOn { tenantId, agentId, since, till, levels := [], began := holds.rows, phase := .usage }
    (levelsOf cfg tenantId agentId)

def answer (c : Check) (a : BudgetAnswer) : Check := { c with levels := [], phase := .done a }

/-- The check has answered that the run may be admitted. -/
def allowed (c : Check) : Bool :=
  match c.phase with
  | .done .allowed => true
  | _ => false

/-- One query of `checkBudgetAdmission`. The last one of a level is followed by its evaluation. -/
def next (driver : Driver StoreError) (c : Check) (s : Spend) : Check :=
  match c.levels, c.phase with
  | (level, _) :: _, .usage =>
    let rows := (c.scope level).usages s.usages
    match query driver (fun _ => sumUsage rows) s with
    | .error e => c.answer (.lookupFailed e)
    | .ok totals => { c with phase := .count rows totals }
  | (level, _) :: _, .count rows totals =>
    match query driver (countRunsSince (c.scope level)) s.db with
    | .error e => c.answer (.lookupFailed e)
    | .ok runs => { c with phase := .holds rows totals runs }
  | (level, cap) :: rest, .holds _ totals runs =>
    match query driver (fun s => sumUsageHolds ((c.scope level).holds s.holds)) s with
    | .error e => c.answer (.lookupFailed e)
    | .ok held =>
      let verdict := evaluateCap (some cap) (snapshot totals runs held) level
      if verdict.hard then c.answer (.refused verdict.reason) else c.goOn rest
  | _, _ => c

end Check

open Check

/-! ## The machine -/

structure Budgeting where
  spend : Spend
  finalizations : List Finalization := []
  checks : List Check := []

inductive BudgetEvent where
  | finalize (runId : String)
  | check (tenantId agentId since till : String)
  | proceedFinalize (i : ℕ) (call : SpendCall)
  | proceedCheck (i : ℕ) (driver : Driver StoreError)

namespace Budgeting

def step (cfg : Budgets) (ledger : Ledger) : BudgetEvent → Budgeting → Budgeting
  | .finalize runId, w => { w with finalizations := w.finalizations ++ [{ runId }] }
  | .check tenantId agentId since till, w =>
    { w with checks := w.checks ++ [.arrive cfg tenantId agentId since till w.spend.holds] }
  | .proceedFinalize i call, w =>
    match w.finalizations[i]? with
    | none => w
    | some f =>
      let (phase, spend) := f.next ledger call w.spend
      { w with spend, finalizations := w.finalizations.set i { f with phase } }
  | .proceedCheck i driver, w =>
    match w.checks[i]? with
    | none => w
    | some c => { w with checks := w.checks.set i (c.next driver w.spend) }

end Budgeting

/-! ## What a check counts -/

namespace Check

/-- The hold is in the scope of a level. -/
def has (c : Check) (level : AdmissionScope) (h : OpenHold) : Bool :=
  (c.scope level).has h.hold.tenantId h.hold.agentId h.createdAt

/-- The usage that there is to read at levels. -/
def unread (c : Check) (usages : Usages) (levels : List (AdmissionScope × BudgetCap)) :
    List (AdmissionScope × List UsageEvent) :=
  levels.map fun l => (l.1, (c.scope l.1).usages usages)

/-- The usage that is counted at the levels that are left : what has been read, or what there is to
read. -/
def counting (c : Check) (usages : Usages) : List (AdmissionScope × List UsageEvent) :=
  match c.levels, c.phase with
  | levels, .usage => c.unread usages levels
  | l :: rest, .count rows _ => (l.1, rows) :: c.unread usages rest
  | l :: rest, .holds rows _ _ => (l.1, rows) :: c.unread usages rest
  | _, _ => []

/-- At every level that has the hold, the usage of its run is counted. -/
def covers (c : Check) (usages : Usages) (h : OpenHold) : Bool :=
  (c.counting usages).all fun p => !c.has p.1 h || p.2.any fun e => e.runId = h.hold.runId

/-- The holds of the beginning that the snapshot of the next query has not, neither themselves nor
the usage of their run. -/
def missed (c : Check) (s : Spend) : List OpenHold :=
  match c.levels, c.phase with
  | (level, _) :: _, .holds rows _ _ => c.began.filter fun h =>
      c.has level h &&
        !((c.scope level).holds s.holds).any (fun h' => h'.hold.runId = h.hold.runId) &&
        !rows.any (fun e => e.runId = h.hold.runId)
  | _, _ => []

end Check

namespace Budgeting

/-- The step evaluates no snapshot, or one that misses no hold of the beginning of the check. -/
def counted (w : Budgeting) : BudgetEvent → Bool
  | .proceedCheck i _ => w.checks[i]?.all fun c => (c.missed w.spend).isEmpty
  | _ => true

/-- A hold is released only if every check that began with it counts the usage of its run. -/
def orderly (w : Budgeting) : BudgetEvent → Bool
  | .proceedFinalize i _ => w.finalizations[i]?.all fun f =>
      match f.phase with
      | .release => w.checks.all fun c => c.began.all fun h =>
          h.hold.runId ≠ f.runId || c.covers w.spend.usages h
      | _ => true
  | _ => true

end Budgeting

/-! ## Writes -/

/-- The recorded usage of a run has the tenant, the agent and the time of its row. -/
def Ledger.Recorded (ledger : Ledger) (usages : Usages) : Prop :=
  ∀ e ∈ usages.rows, ∀ run, ledger.db.runs.get? e.runId = some run →
    e.tenantId = run.tenantId ∧ e.agentId = run.agentId ∧ e.ts = run.updatedAt

section Writes

variable {ledger : Ledger} {usages : Usages} {ctx : Ctx} {now runId : String} {run : Run}
  {ev : UsageEvent}

/-- The row that a finalization writes, whether or not there is one for the run. -/
theorem row_of_terminalUsage (ctx : Ctx) (now : String) (hrun : ledger.db.runs.get? runId = some run)
    (hev : terminalUsage ledger.pricebook run (ledger.output runId) = some ev) :
    (ev.row ctx now).runId = runId ∧ (ev.row ctx now).tenantId = run.tenantId ∧
      (ev.row ctx now).agentId = run.agentId ∧ (ev.row ctx now).ts = run.updatedAt := by
  obtain ⟨hid, htenant, hagent, hts, -⟩ := terminalUsage_run hev
  obtain ⟨hmem, hkey⟩ := Table.get?_eq_some_iff.1 hrun
  obtain ⟨hdated, hupdated⟩ := ledger.dated run hmem
  refine ⟨hid.trans hkey, ?_, hagent, ?_⟩
  · simp [UsageEvent.row, htenant, if_neg hdated]
  · simp [UsageEvent.row, hts, if_neg hupdated]

/-- What is under a key after the write of an event. -/
theorem get?_writeUsageEvent (ctx : Ctx) (now : String) (ev : UsageEvent) (usages : Usages)
    (k : String × String) : (writeUsageEvent ctx now ev usages).get? k =
      if k = ((ev.row ctx now).runId, (ev.row ctx now).source) then
        some ((usages.get? k).elim (ev.row ctx now) fun old =>
          { ev.row ctx now with id := old.id, runId := old.runId, source := old.source })
      else usages.get? k :=
  Table.get?_upsert usages _ _ _ k

section

variable (h : ledger.Recorded usages) (hrun : ledger.db.runs.get? runId = some run)
  (hev : terminalUsage ledger.pricebook run (ledger.output runId) = some ev)
include h hrun hev

theorem Ledger.Recorded.write : ledger.Recorded (writeUsageEvent ctx now ev usages) := by
  obtain ⟨hid, htenant, hagent, hts⟩ := row_of_terminalUsage ctx now hrun hev
  intro e he run' hrun'
  rw [Table.mem_iff_get?, get?_writeUsageEvent] at he
  split_ifs at he with hk
  · -- the row of this run
    have hsame : e.runId = runId := (congrArg Prod.fst hk).trans hid
    obtain rfl : run = run' := Option.some.inj (hrun.symm.trans (hsame ▸ hrun'))
    cases hold : usages.get? (e.runId, e.source) with
    | none | some =>
      rw [hold] at he
      cases he
      exact ⟨htenant, hagent, hts⟩
  · exact h e (Table.mem_iff_get?.2 he) run' hrun'

/-- The usage that is in a scope stays there. -/
theorem Ledger.Recorded.kept {scope : Scope} {e : UsageEvent} (he : e ∈ scope.usages usages) :
    ∃ e' ∈ scope.usages (writeUsageEvent ctx now ev usages), e'.runId = e.runId := by
  obtain ⟨hid, htenant, hagent, hts⟩ := row_of_terminalUsage ctx now hrun hev
  obtain ⟨hmem, hscope⟩ := List.mem_filter.1 he
  have hget := Table.mem_iff_get?.1 hmem
  have hafter := get?_writeUsageEvent ctx now ev usages (e.runId, e.source)
  split_ifs at hafter with hk
  · have hsame : e.runId = runId := (congrArg Prod.fst hk).trans hid
    obtain ⟨htenant', hagent', hts'⟩ := h e hmem run (hsame ▸ hrun)
    rw [hget] at hafter
    refine ⟨_, List.mem_filter.2 ⟨(Table.get?_eq_some_iff.1 hafter).1, ?_⟩, rfl⟩
    simp only [Option.elim_some, htenant, hagent, hts, ← htenant', ← hagent', ← hts']
    exact hscope
  · exact ⟨e, List.mem_filter.2 ⟨Table.mem_iff_get?.2 (hafter.trans hget), hscope⟩, rfl⟩

end

/-- What a call of a finalization does to the tables. -/
theorem Finalization.next_cases (ledger : Ledger) (call : SpendCall) (f : Finalization) (s : Spend) :
    (f.next ledger call s).2 = s ∨ (∃ run ev, ledger.db.runs.get? f.runId = some run ∧
      terminalUsage ledger.pricebook run (ledger.output f.runId) = some ev ∧
      (f.next ledger call s).2 = { s with usages := writeUsageEvent call.ctx call.now ev s.usages }) ∨
    f.phase = .release ∧
      (f.next ledger call s).2 = { s with holds := releaseHold f.runId s.holds } := by
  obtain ⟨runId, phase⟩ := f
  cases phase with
  | usage =>
    simp only [Finalization.next]
    cases hev : (ledger.db.runs.get? runId).bind fun run =>
      terminalUsage ledger.pricebook run (ledger.output runId) with
    | none => exact .inl rfl
    | some ev =>
      obtain ⟨run, hrun, hev⟩ := Option.bind_eq_some_iff.1 hev
      obtain hsame | hwritten := Transaction.write_total call.driver
        (fun usages => ((), writeUsageEvent call.ctx call.now ev usages)) s.usages
      · exact .inl (congrArg (fun usages => { s with usages := usages }) hsame)
      · exact .inr (.inl ⟨run, ev, hrun, hev,
          congrArg (fun usages => { s with usages := usages }) hwritten⟩)
  | release =>
    simp only [Finalization.next]
    obtain hsame | hreleased := Transaction.write_total call.driver
      (fun holds => ((), releaseHold runId holds)) s.holds
    · exact .inl (congrArg (fun holds => { s with holds := holds }) hsame)
    · exact .inr (.inr ⟨trivial, congrArg (fun holds => { s with holds := holds }) hreleased⟩)
  | done => exact .inl rfl

end Writes

/-! ## Steps -/

variable {ledger : Ledger} {cfg : Budgets} {w : Budgeting} {ev : BudgetEvent} {c : Check}
  {h : OpenHold} {usages usages' : Usages}

theorem Check.covers_iff : c.covers usages h ↔ ∀ p ∈ c.counting usages,
    c.has p.1 h → ∃ e ∈ p.2, e.runId = h.hold.runId := by
  simp only [covers, List.all_eq_true, Bool.or_eq_true, Bool.not_eq_true', List.any_eq_true,
    decide_eq_true_eq]
  refine forall₂_congr fun p _ => ?_
  cases c.has p.1 h <;> simp

/-- What has been read is the same in other tables. -/
theorem Check.counting_cases {p : AdmissionScope × List UsageEvent} (hp : p ∈ c.counting usages') :
    p ∈ c.counting usages ∨ p.2 = (c.scope p.1).usages usages' ∧
      (p.1, (c.scope p.1).usages usages) ∈ c.counting usages := by
  have hunread : ∀ levels, p ∈ c.unread usages' levels →
      p.2 = (c.scope p.1).usages usages' ∧
        (p.1, (c.scope p.1).usages usages) ∈ c.unread usages levels := by
    intro levels hp
    obtain ⟨l, hl, rfl⟩ := List.mem_map.1 hp
    exact ⟨rfl, List.mem_map.2 ⟨l, hl, rfl⟩⟩
  -- the level that is being evaluated, with its rows, before the others
  have hread : ∀ q rest, p ∈ q :: c.unread usages' rest →
      p ∈ q :: c.unread usages rest ∨ p.2 = (c.scope p.1).usages usages' ∧
        (p.1, (c.scope p.1).usages usages) ∈ q :: c.unread usages rest := by
    intro q rest hp
    obtain rfl | hp := List.mem_cons.1 hp
    · exact .inl List.mem_cons_self
    · obtain ⟨hrows, hmem⟩ := hunread rest hp
      exact .inr ⟨hrows, List.mem_cons_of_mem _ hmem⟩
  unfold counting at hp ⊢
  split at hp
  · exact .inr (hunread _ hp)
  · exact hread _ _ hp
  · exact hread _ _ hp
  · cases hp

/-- The usage of a scope that is still there is still counted. -/
theorem Check.covers_of_kept (hkept : ∀ level, ∀ e ∈ (c.scope level).usages usages,
      ∃ e' ∈ (c.scope level).usages usages', e'.runId = e.runId)
    (hcovers : c.covers usages h) : c.covers usages' h := by
  rw [covers_iff] at hcovers ⊢
  intro p hp hhas
  obtain hread | ⟨hrows, hbefore⟩ := counting_cases hp
  · exact hcovers p hread hhas
  · obtain ⟨e, he, hid⟩ := hcovers _ hbefore hhas
    obtain ⟨e', he', hid'⟩ := hkept p.1 e he
    exact ⟨e', hrows ▸ he', hid'.trans hid⟩

section

variable (driver : Driver StoreError)

theorem Check.next_same (c : Check) (s : Spend) :
    (c.next driver s).began = c.began ∧ ∀ level, (c.next driver s).scope level = c.scope level := by
  unfold next
  split
  · simp only
    split <;> exact ⟨rfl, fun _ => rfl⟩
  · split <;> exact ⟨rfl, fun _ => rfl⟩
  · split
    · exact ⟨rfl, fun _ => rfl⟩
    · simp only
      split_ifs <;> exact ⟨rfl, fun _ => rfl⟩
  · exact ⟨rfl, fun _ => rfl⟩

/-- A query adds nothing to what is counted at the levels that are left. -/
theorem Check.counting_next (c : Check) (s : Spend)
    {p : AdmissionScope × List UsageEvent} (hp : p ∈ (c.next driver s).counting s.usages) :
    p ∈ c.counting s.usages := by
  obtain ⟨_, _, _, _, levels, _, phase⟩ := c
  have hanswered : ∀ {c : Check} {a : BudgetAnswer}, p ∉ (c.answer a).counting s.usages :=
    fun hmem => by cases hmem
  cases levels with
  | nil => cases phase <;> exact hp
  | cons l rest =>
    obtain ⟨_, _⟩ := l
    cases phase with
    | usage | count =>
      simp only [next] at hp
      split at hp
      · exact absurd hp hanswered
      · exact hp
    | holds =>
      simp only [next] at hp
      split at hp
      · exact absurd hp hanswered
      · split_ifs at hp
        · exact absurd hp hanswered
        · -- the check goes on with the other levels
          cases rest with
          | nil => cases hp
          | cons => exact List.mem_cons_of_mem _ hp
    | done => exact hp

theorem Check.covers_next {s : Spend}
    (hcovers : c.covers s.usages h) : (c.next driver s).covers s.usages h := by
  rw [covers_iff] at hcovers ⊢
  intro p hp hhas
  refine hcovers p (counting_next driver c s hp) ?_
  rwa [has, ← (next_same driver c s).2]

end

/-- Each hold of the beginning of a check is open, or the usage of its run is counted. -/
structure Budgeting.Accounted (ledger : Ledger) (w : Budgeting) : Prop where
  recorded : ledger.Recorded w.spend.usages
  open_or_covered : ∀ c ∈ w.checks, ∀ h ∈ c.began,
    h ∈ w.spend.holds.rows ∨ c.covers w.spend.usages h = true

theorem Budgeting.Accounted.step (hw : w.Accounted ledger) (hev : w.orderly ev) :
    (w.step cfg ledger ev).Accounted ledger := by
  cases ev with
  | finalize => exact ⟨hw.recorded, hw.open_or_covered⟩
  | check =>
    refine ⟨hw.recorded, fun c hc h hh => ?_⟩
    obtain hc | hc := List.mem_append.1 hc
    · exact hw.open_or_covered c hc h hh
    · obtain rfl := List.mem_singleton.1 hc
      exact .inl hh
  | proceedCheck i driver =>
    cases hi : w.checks[i]? with
    | none =>
      rwa [show w.step cfg ledger (.proceedCheck i driver) = w by simp [Budgeting.step, hi]]
    | some c =>
      rw [show w.step cfg ledger (.proceedCheck i driver) =
        { w with checks := w.checks.set i (c.next driver w.spend) } by simp [Budgeting.step, hi]]
      refine ⟨hw.recorded, fun c' hc' h hh => ?_⟩
      obtain hc' | rfl := List.mem_or_eq_of_mem_set hc'
      · exact hw.open_or_covered c' hc' h hh
      · rw [(next_same driver c w.spend).1] at hh
        exact (hw.open_or_covered c (List.mem_of_getElem? hi) h hh).imp id (covers_next driver)
  | proceedFinalize i call =>
    cases hi : w.finalizations[i]? with
    | none =>
      rwa [show w.step cfg ledger (.proceedFinalize i call) = w by simp [Budgeting.step, hi]]
    | some f =>
      rw [show w.step cfg ledger (.proceedFinalize i call) =
        { w with
          spend := (f.next ledger call w.spend).2
          finalizations := w.finalizations.set i { f with phase := (f.next ledger call w.spend).1 } }
        by simp [Budgeting.step, hi]]
      obtain hkept | ⟨run, ev, hrun, hev', hwritten⟩ | ⟨hphase, hreleased⟩ :=
        f.next_cases ledger call w.spend
      · exact ⟨by rw [hkept]; exact hw.recorded, by rw [hkept]; exact hw.open_or_covered⟩
      · refine ⟨?_, fun c hc h hh => ?_⟩
        · rw [hwritten]
          exact hw.recorded.write hrun hev'
        · rw [hwritten]
          exact (hw.open_or_covered c hc h hh).imp id
            (covers_of_kept fun level e he => hw.recorded.kept hrun hev' he)
      · refine ⟨by rw [hreleased]; exact hw.recorded, fun c hc h hh => ?_⟩
        rw [hreleased]
        by_cases hid : h.hold.runId = f.runId
        · -- the released hold : the step is orderly
          simp only [Budgeting.orderly, hi, Option.all_some, hphase, List.all_eq_true, Bool.or_eq_true,
            decide_eq_true_eq] at hev
          exact .inr ((hev c hc h hh).resolve_left fun hne => hne hid)
        · refine (hw.open_or_covered c hc h hh).imp (fun hopen => ?_) id
          unfold releaseHold
          split_ifs
          · exact hopen
          · exact List.mem_filter.2 ⟨hopen, by simpa using hid⟩

theorem Budgeting.Accounted.counted (hw : w.Accounted ledger) : w.counted ev := by
  cases ev with
  | proceedCheck i driver =>
    simp only [Budgeting.counted]
    cases hi : w.checks[i]? with
    | none => rfl
    | some c =>
      simp only [Option.all_some, List.isEmpty_iff]
      unfold missed
      split
      · rename_i level cap rest rows totals runs hlevels hphase
        refine List.filter_eq_nil_iff.2 fun h hh hmissed => ?_
        simp only [Bool.and_eq_true, Bool.not_eq_true', List.any_eq_false, decide_eq_true_eq] at hmissed
        obtain ⟨⟨hhas, hnoHold⟩, hnoUsage⟩ := hmissed
        obtain hopen | hcovers := hw.open_or_covered c (List.mem_of_getElem? hi) h hh
        · exact hnoHold h (List.mem_filter.2 ⟨hopen, hhas⟩) rfl
        · have hread : (level, rows) ∈ c.counting w.spend.usages := by
            unfold counting
            rw [hlevels, hphase]
            exact List.mem_cons_self
          obtain ⟨e, he, hid⟩ := covers_iff.1 hcovers _ hread hhas
          exact hnoUsage e he hid
      · rfl
  | _ => rfl

/-! ## Runs -/

/-- No spend is missed if every hold is released after each check has counted the usage of its run,
or before it reads that. -/
theorem spend_counted (cfg : Budgets) (ledger : Ledger) (w : Budgeting) (hchecks : w.checks = [])
    (hrecorded : ledger.Recorded w.spend.usages) (evs : List BudgetEvent)
    (h : Trace.Every (Budgeting.step cfg ledger) (fun ev w => w.orderly ev = true) evs w) :
    Trace.Every (Budgeting.step cfg ledger) (fun ev w => w.counted ev = true) evs w := by
  have hw : w.Accounted ledger := ⟨hrecorded, fun c hc => by rw [hchecks] at hc; cases hc⟩
  exact Trace.every_of_invariant (fun _ _ hev hw => hw.step hev) (fun _ _ _ hw => hw.counted) h hw

/-- One run that ended with seven tokens, and a hold that is open for it. -/
def oneFinished : Ledger where
  pricebook := []
  db := { (default : Db) with runs := ⟨[finishedRun], List.nodup_singleton _⟩ }
  output := fun _ => sevenTokens
  dated := by decide

def oneHeld : Budgeting where
  spend :=
    { db := oneFinished.db
      usages := .empty
      holds := ⟨[⟨⟨"r", "default", "agent", 0, 50⟩, "2026-01-02T08:00:00Z"⟩], List.nodup_singleton _⟩ }

/-- The tenant may use five tokens a day. -/
def fiveTokens : Budgets := { tenants := [("default", { maxTokensPerDay := 5 })] }

/-- A check begins, and the run is finalized between its queries, after so many of them. -/
def finalizedAfter (queries : ℕ) : List BudgetEvent :=
  [.check "default" "agent" tenantDay.since tenantDay.till, .finalize "r"] ++
  List.replicate queries (.proceedCheck 0 {}) ++ List.replicate 2 (.proceedFinalize 0 {}) ++
  List.replicate (3 - queries) (.proceedCheck 0 {})

theorem spend_counted_before :
    Trace.Every (Budgeting.step fiveTokens oneFinished) (fun ev w => w.orderly ev = true)
      (finalizedAfter 0) oneHeld ∧
    Trace.Every (Budgeting.step fiveTokens oneFinished) (fun ev w => w.counted ev = true)
      (finalizedAfter 0) oneHeld := by
  have hrecorded : oneFinished.Recorded oneHeld.spend.usages := fun e he => by cases he
  exact ⟨by decide +kernel,
    spend_counted fiveTokens oneFinished oneHeld rfl hrecorded _ (by decide +kernel)⟩

/-- A run that is finalized between the sum of the usage and that of the holds is in neither, and the
check allows what either of them forbids. -/
theorem finished_run_missed :
    ¬ Trace.Every (Budgeting.step fiveTokens oneFinished) (fun ev w => w.counted ev = true)
      (finalizedAfter 1) oneHeld ∧
    [0, 1, 3].map (fun queries =>
      (Trace.run (Budgeting.step fiveTokens oneFinished) (finalizedAfter queries) oneHeld).checks.map
        Check.allowed) = [[false], [true], [false]] := by decide +kernel

end Runkite
