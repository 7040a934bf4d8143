import Runkite.Budgets

/-!
# What a finished run adds to the spend of its day

Finalizing a run records the prompt and completion tokens of its output, and the cost endpoint reports
the total. The total may be given without its parts, or not be their sum; the parts may be negative;
the model may be no string, and then nothing is recorded; and a sum of the day may leave `int64`.

`spend_grows_iff` : finalizing a run adds what is reported, and keeps every hard verdict, if and only
if none of this is so (`negative_usage_lifts_budget`).

The hold of the run is released by a later call, which gives back a reserved amount and records
nothing, so the open holds stay as they are here.
-/

open Json (Value)

namespace Runkite

/-! ## What is recorded and reported -/

/-- The tokens that finalizing a run adds to `usage_events`. -/
def recordedTokens (pb : Pricebook) (run : Run) (output : Output) : ℤ :=
  (terminalUsage pb run output).elim 0 fun ev => ev.tokensIn + ev.tokensOut

/-- Finalizing a run adds to the token total of the scope what is reported, which is not negative, and
a hard verdict stays hard. -/
structure Grows (scope : Scope) (recorded reported : ℤ) (before after : Spend) : Prop where
  recorded_eq : recorded = reported
  nonneg : 0 ≤ reported
  total : ∀ snap, loadSnap scope before = .ok snap →
    ∃ snap', loadSnap scope after = .ok snap' ∧ snap'.tokens = snap.tokens + recorded
  verdict : ∀ snap snap', loadSnap scope before = .ok snap → loadSnap scope after = .ok snap' →
    ∀ cap level, (evaluateCap cap snap level).hard = true → (evaluateCap cap snap' level).hard = true

/-- The parts are what the total says, if it is given, and their sum is a count. -/
def RunUsage.Consistent (u : RunUsage) : Prop :=
  (u.totalTokens = 0 ∨ u.totalTokens = u.promptTokens + u.completionTokens) ∧
    0 ≤ u.promptTokens + u.completionTokens ∧ u.promptTokens + u.completionTokens < 2 ^ 63

instance (u : RunUsage) : Decidable u.Consistent := inferInstanceAs (Decidable (_ ∧ _))

/-- The output is metered right : it has no usage that can be read; or its model is no string and it
reports no tokens; or its counts are consistent and the sums of the day have room for them. -/
def metered (output : Output) (totals : UsageTotals) (snap : UsageSnapshot) : Bool :=
  match output.bind parseUsage, output.bind parseModel with
  | none, _ => true
  | some u, none => u.totalTokens = 0 ∧ (u.promptTokens ≤ 0 ∧ u.completionTokens ≤ 0 ∨
      u.promptTokens + u.completionTokens = 0)
  | some u, some _ => u.Consistent ∧ IsInt64 (totals.tokensIn + u.promptTokens) ∧
      IsInt64 (totals.tokensOut + u.completionTokens) ∧
      snap.tokens + (u.promptTokens + u.completionTokens) < 2 ^ 63

variable {u : RunUsage}

@[simp] theorem RunUsage.filled_promptTokens (u : RunUsage) :
    u.filled.promptTokens = u.promptTokens := by
  unfold RunUsage.filled
  split_ifs <;> rfl

@[simp] theorem RunUsage.filled_completionTokens (u : RunUsage) :
    u.filled.completionTokens = u.completionTokens := by
  unfold RunUsage.filled
  split_ifs <;> rfl

/-- What the cost endpoint reports of a usage. -/
theorem RunUsage.filled_totalTokens (u : RunUsage) : u.filled.totalTokens =
    if u.totalTokens = 0 ∧ (0 < u.promptTokens ∨ 0 < u.completionTokens) then
      int64 (u.promptTokens + u.completionTokens) else u.totalTokens := by
  unfold RunUsage.filled
  simp only [Bool.and_eq_true, Bool.or_eq_true, decide_eq_true_eq]
  split_ifs <;> rfl

theorem RunUsage.InRange.filled_totalTokens (h : u.InRange) : IsInt64 u.filled.totalTokens := by
  rw [RunUsage.filled_totalTokens]
  split_ifs
  · exact isInt64_int64 _
  · exact h.total

/-- The parts add up to what is reported. -/
theorem RunUsage.consistent_iff (h : u.InRange) : u.Consistent ↔
    u.promptTokens + u.completionTokens = u.filled.totalTokens ∧ 0 ≤ u.filled.totalTokens := by
  have hrange := h.filled_totalTokens
  have hsum := @int64_eq_self (u.promptTokens + u.completionTokens)
  obtain ⟨_, _, _⟩ := h
  rw [RunUsage.filled_totalTokens] at hrange ⊢
  unfold RunUsage.Consistent IsInt64 at *
  split_ifs at hrange ⊢ <;> omega

/-- Nothing is reported. -/
theorem RunUsage.filled_totalTokens_eq_zero (h : u.InRange) : u.filled.totalTokens = 0 ↔
    u.totalTokens = 0 ∧ (u.promptTokens ≤ 0 ∧ u.completionTokens ≤ 0 ∨
      u.promptTokens + u.completionTokens = 0) := by
  obtain ⟨_, k, _⟩ := int64_cases (u.promptTokens + u.completionTokens)
  obtain ⟨_, _, _⟩ := h
  rw [RunUsage.filled_totalTokens]
  unfold IsInt64 at *
  split_ifs <;> omega

/-- The usage that is metered. -/
theorem extractRunUsageWithModel_eq (output : Output) : extractRunUsageWithModel output =
    match output.bind parseUsage, output.bind parseModel with
    | some u, some model => (u.filled, model)
    | _, _ => ({}, "") := by
  cases output with
  | none => rfl
  | some v =>
    simp only [extractRunUsageWithModel, Option.bind_some, parseUsageWithModel_eq]
    cases parseUsage v <;> cases parseModel v <;> rfl

section

variable (pb : Pricebook) (output : Output) {run : Run} (hterminal : run.status.terminal = true)
  (hsim : Create.isSimulation run = false) (hcache : run.isCacheHit = false)
include hterminal hsim hcache

/-- The usage is written, or all of it is zero. -/
theorem terminalUsage_cases : (terminalUsage pb run output = none ∧
      (extractRunUsageWithModel output).1.promptTokens = 0 ∧
      (extractRunUsageWithModel output).1.completionTokens = 0) ∨
    ∃ ev, terminalUsage pb run output = some ev ∧
      ev.tokensIn = (extractRunUsageWithModel output).1.promptTokens ∧
      ev.tokensOut = (extractRunUsageWithModel output).1.completionTokens ∧
      (pb.nonnegative → 0 ≤ ev.usdEstimate) := by
  cases output with
  | none => exact .inl ⟨rfl, rfl, rfl⟩
  | some v =>
    simp only [terminalUsage, Option.isNone_some, hsim, hcache, hterminal, Bool.not_true, Bool.or_false,
      Bool.false_eq_true, if_false]
    generalize extractRunUsageWithModel (some v) = usage
    obtain ⟨usage, _⟩ := usage
    split_ifs with hzero
    · simp only [Bool.and_eq_true, decide_eq_true_eq] at hzero
      exact .inl ⟨rfl, hzero.1.1.1, hzero.1.1.2⟩
    · exact .inr ⟨_, rfl, rfl, rfl, fun hpb => pb.estimateUSD_nonneg hpb _ _ _ _⟩

theorem recordedTokens_eq :
    recordedTokens pb run output = (extractRunUsageWithModel output).1.promptTokens +
      (extractRunUsageWithModel output).1.completionTokens := by
  unfold recordedTokens
  obtain ⟨hnone, hp, hc⟩ | ⟨_, hev, hin, hout, -⟩ :=
    terminalUsage_cases pb output hterminal hsim hcache
  · rw [hnone, hp, hc]
    rfl
  · rw [hev, ← hin, ← hout]
    rfl

end

/-! ## The sums of the day -/

section Sums

variable {rows : List UsageEvent} {totals : UsageTotals} {scope : Scope} {s : Spend}
  {snap : UsageSnapshot} {usage : RunUsage} {ns : List ℤ}

theorem sumInt64_concat {n sum : ℤ} (h : sumInt64 ns = .ok sum) : sumInt64 (ns ++ [n]) =
      if IsInt64 (sum + n) then .ok (sum + n) else .error (.statement "integer overflow") := by
  unfold sumInt64 at h ⊢
  rw [List.foldlM_append, h]
  simp only [bind, Except.bind, List.foldlM_cons, List.foldlM_nil]
  split_ifs <;> rfl

theorem sumUsage_ok : sumUsage rows = .ok totals ↔
    sumInt64 (rows.map UsageEvent.tokensIn) = .ok totals.tokensIn ∧
    sumInt64 (rows.map UsageEvent.tokensOut) = .ok totals.tokensOut ∧
    totals.usd = (rows.map UsageEvent.usdEstimate).sum := by
  obtain ⟨tokensIn, tokensOut, _⟩ := totals
  unfold sumUsage
  cases sumInt64 (rows.map UsageEvent.tokensIn) with
  | error => simp [bind, Except.bind]
  | ok =>
    cases sumInt64 (rows.map UsageEvent.tokensOut) with
    | error => simp [bind, Except.bind]
    | ok => simp [bind, Except.bind, pure, Except.pure, eq_comm]

/-- One more row : both sums have room for it, or the query fails. -/
theorem sumUsage_concat (e : UsageEvent) (totals' : UsageTotals) (h : sumUsage rows = .ok totals) :
    sumUsage (rows ++ [e]) = .ok totals' ↔
    IsInt64 (totals.tokensIn + e.tokensIn) ∧ IsInt64 (totals.tokensOut + e.tokensOut) ∧
    totals' = ⟨totals.tokensIn + e.tokensIn, totals.tokensOut + e.tokensOut,
      totals.usd + e.usdEstimate⟩ := by
  obtain ⟨hin, hout, husd⟩ := sumUsage_ok.1 h
  obtain ⟨_, _, _⟩ := totals'
  rw [sumUsage_ok, List.map_append, List.map_append, List.map_append, List.map_singleton,
    List.map_singleton, List.map_singleton, sumInt64_concat hin, sumInt64_concat hout, List.sum_append,
    List.sum_singleton, ← husd]
  split_ifs <;> simp_all [eq_comm]

theorem loadSnap_ok : loadSnap scope s = .ok snap ↔ ∃ totals runs held,
    sumUsage (scope.usages s.usages) = .ok totals ∧ countRunsSince scope s.db = .ok runs ∧
    sumUsageHolds (scope.holds s.holds) = .ok held ∧ snap = snapshot totals runs held := by
  unfold loadSnap
  cases sumUsage (scope.usages s.usages) with
  | error => simp [bind, Except.bind]
  | ok =>
    cases countRunsSince scope s.db with
    | error => simp [bind, Except.bind]
    | ok =>
      cases sumUsageHolds (scope.holds s.holds) with
      | error => simp [bind, Except.bind]
      | ok => simp [bind, Except.bind, pure, Except.pure, eq_comm]

/-- The token total of a snapshot wraps around once. -/
theorem tokens_snapshot (totals : UsageTotals) (runs : ℕ) (held : ℚ × ℤ) :
    (snapshot totals runs held).tokens = int64 (totals.tokensIn + held.2 + totals.tokensOut) :=
  int64_add_int64 _ _

theorem tokens_snapshot_add (totals : UsageTotals) (runs : ℕ) (held : ℚ × ℤ) (m n : ℤ) (usd : ℚ) :
    (snapshot ⟨totals.tokensIn + m, totals.tokensOut + n, usd⟩ runs held).tokens =
      int64 ((snapshot totals runs held).tokens + (m + n)) := by
  rw [tokens_snapshot, tokens_snapshot, int64_add_int64]
  congr 1
  ring

/-- The first event of a run is one more row of its scope. -/
theorem usages_write {ctx : Ctx} {now : String} {ev : UsageEvent} {usages : Usages}
    (hfresh : usages.get? ((ev.row ctx now).runId, (ev.row ctx now).source) = none)
    (hscope : scope.has (ev.row ctx now).tenantId ev.agentId (ev.row ctx now).ts) :
    scope.usages (writeUsageEvent ctx now ev usages) = scope.usages usages ++ [ev.row ctx now] := by
  unfold writeUsageEvent Table.upsert
  cases hinsert : usages.insert (ev.row ctx now) with
  | some =>
    have hrow :
        scope.has (ev.row ctx now).tenantId (ev.row ctx now).agentId (ev.row ctx now).ts :=
      hscope
    rw [Scope.usages, (Table.rows_of_insert hinsert).2, List.filter_append]
    simp only [List.filter_cons, hrow, if_true, List.filter_nil]
    rfl
  | none =>
    obtain ⟨_, hrow⟩ := Table.insert_eq_none_iff.1 hinsert
    exact absurd (hfresh.symm.trans hrow) (by simp)

/-! ## Finalizing a run -/

variable {pb : Pricebook} {ctx : Ctx} {now : String} {run : Run} {output : Output} {s : Spend}
  {scope : Scope} {totals : UsageTotals} {snap : UsageSnapshot}

theorem isInt64_of_sumInt64 {sum : ℤ} (h : sumInt64 ns = .ok sum) : IsInt64 sum := by
  unfold sumInt64 at h
  have hfrom : ∀ start, IsInt64 start →
      ns.foldlM (fun sum n => if IsInt64 (sum + n) then Except.ok (sum + n)
        else .error (StoreError.statement "integer overflow")) start = .ok sum → IsInt64 sum := by
    clear h
    induction ns with
    | nil =>
      intro start hstart hsum
      exact Except.ok.inj hsum ▸ hstart
    | cons n ns ih =>
      intro start hstart hsum
      rw [List.foldlM_cons] at hsum
      by_cases hn : IsInt64 (start + n)
      · rw [if_pos hn] at hsum
        exact ih _ hn hsum
      · rw [if_neg hn] at hsum
        cases hsum
  exact hfrom 0 (by decide) h

/-- What is read after a run is finalized. -/
structure After (totals : UsageTotals) (snap : UsageSnapshot) (tokensIn tokensOut : ℤ)
    (snap' : UsageSnapshot) : Prop where
  roomIn : IsInt64 (totals.tokensIn + tokensIn)
  roomOut : IsInt64 (totals.tokensOut + tokensOut)
  tokens : snap'.tokens = int64 (snap.tokens + (tokensIn + tokensOut))
  usd : snap.usd ≤ snap'.usd
  runs : snap'.runs = snap.runs

variable (hpb : pb.nonnegative = true) (hterminal : run.status.terminal = true)
  (hsim : Create.isSimulation run = false) (hcache : run.isCacheHit = false)
  (hfresh : s.usages.get? (run.runId, usageSourceTerminalOutput) = none)
  (hscope : scope.has (if run.tenantId = "" then ctx.tenant else run.tenantId) run.agentId
    (if run.updatedAt = "" then now else run.updatedAt) = true)
  (htotals : sumUsage (scope.usages s.usages) = .ok totals) (hsnap : loadSnap scope s = .ok snap)

include hpb hterminal hsim hcache hfresh hscope htotals hsnap

theorem loadSnap_persist (output : Output) (husage : (extractRunUsageWithModel output).1 = usage) :
    (IsInt64 (totals.tokensIn + usage.promptTokens) ∧
        IsInt64 (totals.tokensOut + usage.completionTokens) →
      ∃ snap', loadSnap scope
        { s with usages := persistTerminalUsage pb ctx now run output s.usages } = .ok snap') ∧
    ∀ snap', loadSnap scope
        { s with usages := persistTerminalUsage pb ctx now run output s.usages } = .ok snap' →
      After totals snap usage.promptTokens usage.completionTokens snap' := by
  obtain ⟨totals₀, runs, held, htotals₀, hruns, hheld, rfl⟩ := loadSnap_ok.1 hsnap
  obtain rfl : totals₀ = totals := Except.ok.inj (htotals₀.symm.trans htotals)
  subst husage
  obtain ⟨hnone, hp, hc⟩ | ⟨ev, hev, hin, hout, husd⟩ :=
    terminalUsage_cases pb output hterminal hsim hcache
  · -- nothing is written, and the usage is zero
    obtain ⟨hin, hout, -⟩ := sumUsage_ok.1 htotals
    have hkept : persistTerminalUsage pb ctx now run output s.usages = s.usages := by
      rw [persistTerminalUsage, hnone]
    rw [hkept, hp, hc, add_zero, add_zero]
    refine ⟨fun _ => ⟨_, hsnap⟩, fun snap' hsnap' => ?_⟩
    obtain rfl := Except.ok.inj (hsnap.symm.trans hsnap')
    refine ⟨?_, ?_, ?_, le_rfl, rfl⟩
    · rw [add_zero]
      exact isInt64_of_sumInt64 hin
    · rw [add_zero]
      exact isInt64_of_sumInt64 hout
    · rw [add_zero, add_zero]
      exact (int64_eq_self.2 (isInt64_int64 _)).symm
  · obtain ⟨hid, htenant, hagent, hts, hsource⟩ := terminalUsage_run hev
    have hrow : (ev.row ctx now).source = usageSourceTerminalOutput := by
      have hne : usageSourceTerminalOutput ≠ "" := by decide
      rw [UsageEvent.row, hsource, if_neg hne]
    have hwritten : scope.usages (persistTerminalUsage pb ctx now run output s.usages) =
        scope.usages s.usages ++ [ev.row ctx now] := by
      rw [persistTerminalUsage, hev]
      refine usages_write ?_ ?_
      · rw [hrow, show (ev.row ctx now).runId = run.runId from hid]
        exact hfresh
      · simp only [UsageEvent.row, htenant, hagent, hts]
        exact hscope
    have hsum := fun totals' => sumUsage_concat (ev.row ctx now) totals' htotals
    rw [← hin, ← hout]
    constructor
    · rintro ⟨hroomIn, hroomOut⟩
      have htotals' := (hsum _).2 ⟨hroomIn, hroomOut, rfl⟩
      exact ⟨_, loadSnap_ok.2 ⟨_, runs, held, (congrArg sumUsage hwritten).trans htotals', hruns,
        hheld, rfl⟩⟩
    · intro snap' hsnap'
      obtain ⟨totals', _, _, htotals', hruns', hheld', rfl⟩ := loadSnap_ok.1 hsnap'
      obtain rfl := Except.ok.inj (hruns.symm.trans hruns')
      obtain rfl := Except.ok.inj (hheld.symm.trans hheld')
      obtain ⟨hroomIn, hroomOut, rfl⟩ :=
        (hsum totals').1 ((congrArg sumUsage hwritten).symm.trans htotals')
      refine ⟨hroomIn, hroomOut, tokens_snapshot_add totals₀ _ held _ _ _, ?_, rfl⟩
      have hnonneg : 0 ≤ (ev.row ctx now).usdEstimate := husd hpb
      simp only [snapshot]
      linarith

/-- The spend grows by what is metered, where that is what is reported and there is room for it. -/
theorem grows_iff (husage : (extractRunUsageWithModel output).1 = usage) (reported : ℤ) :
    Grows scope (recordedTokens pb run output) reported s
        { s with usages := persistTerminalUsage pb ctx now run output s.usages } ↔
      usage.promptTokens + usage.completionTokens = reported ∧ 0 ≤ reported ∧
      IsInt64 (totals.tokensIn + usage.promptTokens) ∧
      IsInt64 (totals.tokensOut + usage.completionTokens) ∧
      snap.tokens + (usage.promptTokens + usage.completionTokens) < 2 ^ 63 := by
  have hrecorded := recordedTokens_eq pb output hterminal hsim hcache
  obtain ⟨hexists, hafter⟩ := loadSnap_persist hpb hterminal hsim hcache hfresh hscope htotals hsnap
    output husage
  rw [husage] at hrecorded
  constructor
  · intro h
    obtain ⟨snap', hsnap', htotal⟩ := h.total snap hsnap
    obtain ⟨hin, hout, htokens, -, -⟩ := hafter snap' hsnap'
    rw [htokens, hrecorded, int64_eq_self] at htotal
    exact ⟨hrecorded ▸ h.recorded_eq, h.nonneg, hin, hout, htotal.2⟩
  · rintro ⟨rfl, hnonneg, hin, hout, hroom⟩
    have hfits : IsInt64 (snap.tokens + (usage.promptTokens + usage.completionTokens)) := by
      have hsnapFits : IsInt64 snap.tokens := isInt64_int64 _
      exact ⟨by have := hsnapFits.1; omega, hroom⟩
    refine ⟨hrecorded, hnonneg, fun snap₁ hsnap₁ => ?_, fun snap₁ snap' hsnap₁ hsnap' cap level => ?_⟩
    · obtain rfl := Except.ok.inj (hsnap.symm.trans hsnap₁)
      obtain ⟨snap', hsnap'⟩ := hexists ⟨hin, hout⟩
      exact ⟨snap', hsnap', by rw [(hafter snap' hsnap').tokens, hrecorded, int64_eq_self.2 hfits]⟩
    · obtain rfl := Except.ok.inj (hsnap.symm.trans hsnap₁)
      obtain ⟨-, -, htokens, husd, hruns⟩ := hafter snap' hsnap'
      rw [int64_eq_self.2 hfits] at htokens
      refine hard_of_le fun kind => ?_
      cases kind with
      | usd => exact husd
      | tokens => exact Int.cast_le.2 (by omega)
      | runs => exact Int.cast_le.2 hruns.ge

/-- Where nothing is metered, nothing may be reported. -/
theorem grows_iff_of_unmetered (husage : (extractRunUsageWithModel output).1 = {}) (reported : ℤ) :
    Grows scope (recordedTokens pb run output) reported s
        { s with usages := persistTerminalUsage pb ctx now run output s.usages } ↔ reported = 0 := by
  rw [grows_iff hpb hterminal hsim hcache hfresh hscope htotals hsnap husage]
  obtain ⟨hin, hout, -⟩ := sumUsage_ok.1 htotals
  have hroom : IsInt64 snap.tokens := isInt64_int64 _
  constructor
  · rintro ⟨hsum, -⟩
    exact hsum.symm
  · rintro rfl
    exact ⟨rfl, le_rfl, by rw [add_zero]; exact isInt64_of_sumInt64 hin,
      by rw [add_zero]; exact isInt64_of_sumInt64 hout, by simpa using hroom.2⟩

theorem spend_grows_iff :
    Grows scope (recordedTokens pb run output) (extractRunUsage output).totalTokens s
        { s with usages := persistTerminalUsage pb ctx now run output s.usages } ↔
      metered output totals snap = true := by
  have hmetered := extractRunUsageWithModel_eq output
  unfold metered extractRunUsage
  cases hu : output.bind parseUsage with
  | none =>
    simp only [hu] at hmetered
    rw [grows_iff_of_unmetered hpb hterminal hsim hcache hfresh hscope htotals hsnap
      (congrArg Prod.fst hmetered)]
    exact iff_of_true rfl rfl
  | some u =>
    have hrange : u.InRange := by
      obtain ⟨v, -, hv⟩ := Option.bind_eq_some_iff.1 hu
      exact inRange_of_parseUsage hv
    cases hm : output.bind parseModel with
    | none =>
      simp only [hu, hm] at hmetered
      rw [grows_iff_of_unmetered hpb hterminal hsim hcache hfresh hscope htotals hsnap
        (congrArg Prod.fst hmetered)]
      exact (RunUsage.filled_totalTokens_eq_zero hrange).trans decide_eq_true_iff.symm
    | some =>
      simp only [hu, hm] at hmetered
      rw [grows_iff hpb hterminal hsim hcache hfresh hscope htotals hsnap (congrArg Prod.fst hmetered),
        u.filled_promptTokens, u.filled_completionTokens, ← and_assoc]
      refine Iff.trans ?_ decide_eq_true_iff.symm
      exact and_congr_left fun _ => (RunUsage.consistent_iff hrange).symm

end Sums

/-! ## Outputs -/

/-- A run of the default tenant that ended on this day. -/
def finishedRun : Run :=
  { Run.fresh "r" "t" with status := .success, updatedAt := "2026-01-02T10:00:00Z" }

def tenantDay : Scope := ⟨"default", "", "2026-01-02T00:00:00Z", "2026-01-03T00:00:00Z"⟩

/-- Another run has used ten tokens. -/
def tenTokens : Spend where
  db := default
  usages := ⟨[⟨"usage-o", "2026-01-02T09:00:00Z", "default", "o", "agent", "", 10, 0, 0,
    usageSourceTerminalOutput⟩], List.nodup_singleton _⟩
  holds := .empty

def usageOutput (members : List (String × ℤ)) : Output :=
  some (.object [("usage", .object (members.map fun m => (m.1, .number (.integer m.2))))])

/-- The tables after the run is finalized with an output. -/
def afterRun (output : Output) : Spend :=
  { tenTokens with usages := persistTerminalUsage [] {} "" finishedRun output tenTokens.usages }

/-- Three and four tokens. -/
def sevenTokens : Output := usageOutput [("prompt_tokens", 3), ("completion_tokens", 4)]

theorem spend_grows_seven : metered sevenTokens ⟨10, 0, 0⟩ ⟨10, 0, 0, 0⟩ = true ∧
    Grows tenantDay (recordedTokens [] finishedRun sevenTokens)
      (extractRunUsage sevenTokens).totalTokens tenTokens (afterRun sevenTokens) := by
  have hmetered : metered sevenTokens ⟨10, 0, 0⟩ ⟨10, 0, 0, 0⟩ := by decide +kernel
  refine ⟨hmetered, (spend_grows_iff rfl rfl ?_ ?_ ?_ ?_ ?_ ?_).2 hmetered⟩
  · decide +kernel
  · decide +kernel
  · rfl
  · decide +kernel
  · decide +kernel
  · decide +kernel

/-- A negative count turns a hard verdict into an allowance, and a total without its parts is reported
and not recorded. -/
theorem negative_usage_lifts_budget :
    let cap : BudgetCap := { maxTokensPerDay := 10 }
    ((loadSnap tenantDay tenTokens).toOption.any fun snap =>
      (evaluateCap (some cap) snap .tenant).hard) = true ∧
    ((loadSnap tenantDay (afterRun (usageOutput [("prompt_tokens", -5)]))).toOption.any fun snap =>
      (evaluateCap (some cap) snap .tenant).allow) = true ∧
    (extractRunUsage (usageOutput [("total_tokens", 100)])).totalTokens = 100 ∧
    recordedTokens [] finishedRun (usageOutput [("total_tokens", 100)]) = 0 := by decide +kernel

end Runkite
