import Runkite.RunUsage
import Runkite.UsageHolds

/-!
# Recorded usage, open holds and the budgets of a day

`usage_events` has the usage of finished runs and `usage_holds` the reserved amounts of those that are
not. `sumUsage` and `sumUsageHolds` are the sums of a day over them, and `loadSnap` is what a budget is
compared with. A `SUM` over integers fails on overflow, while the additions in Go wrap around.

Amounts of money are exact.
-/

open Json (Value)

namespace Runkite

/-! ## Prices -/

structure ModelPrice where
  inputPer1k : ℚ := 0
  outputPer1k : ℚ := 0

abbrev Pricebook := List (String × ModelPrice)

/-- What follows the last slash of a model id, if anything does. -/
def afterLastSlash (model : String) : Option String :=
  let rest := model.toList.reverse.takeWhile (· ≠ '/')
  if rest.length < model.toList.length ∧ rest ≠ [] then some (String.ofList rest.reverse) else none

namespace Pricebook

def find (p : Pricebook) (model : String) : Option ModelPrice :=
  if model = "" then none
  else (p.lookup model).or ((afterLastSlash model).bind fun id => p.lookup id)

def estimateUSD (p : Pricebook) (model : String) (tokensIn tokensOut : ℤ) (costUSD : ℚ) : ℚ :=
  if 0 < costUSD then costUSD
  else
    match p.find model with
    | none => 0
    | some price =>
      (if 0 < tokensIn then tokensIn / 1000 * price.inputPer1k else 0) +
        (if 0 < tokensOut then tokensOut / 1000 * price.outputPer1k else 0)

def nonnegative (p : Pricebook) : Bool :=
  p.all fun entry => 0 ≤ entry.2.inputPer1k && 0 ≤ entry.2.outputPer1k

variable {p : Pricebook}

theorem nonneg_of_find (h : p.nonnegative) {model : String}
    {price : ModelPrice} (hprice : p.find model = some price) :
    0 ≤ price.inputPer1k ∧ 0 ≤ price.outputPer1k := by
  have hlookup : ∀ id, p.lookup id = some price → 0 ≤ price.inputPer1k ∧ 0 ≤ price.outputPer1k := by
    intro id hid
    obtain ⟨l, r, rfl, -⟩ := List.lookup_eq_some_iff.1 hid
    have hentry := List.all_eq_true.1 h (id, price) (by simp)
    simpa using hentry
  unfold find at hprice
  split_ifs at hprice
  obtain hid | ⟨-, hrest⟩ := Option.or_eq_some_iff.1 hprice
  · exact hlookup model hid
  · obtain ⟨id, -, hid⟩ := Option.bind_eq_some_iff.1 hrest
    exact hlookup id hid

theorem estimateUSD_nonneg (h : p.nonnegative) (model : String)
    (tokensIn tokensOut : ℤ) (costUSD : ℚ) : 0 ≤ p.estimateUSD model tokensIn tokensOut costUSD := by
  have hpart : ∀ (n : ℤ) (rate : ℚ), 0 ≤ rate → 0 ≤ if 0 < n then (n : ℚ) / 1000 * rate else 0 := by
    intro n rate hrate
    split_ifs with hn
    · have hcast : (0 : ℚ) < n := by exact_mod_cast hn
      positivity
    · exact le_rfl
  unfold estimateUSD
  by_cases hcost : 0 < costUSD
  · rw [if_pos hcost]
    exact hcost.le
  · rw [if_neg hcost]
    cases hprice : p.find model with
    | none => exact le_rfl
    | some =>
      obtain ⟨hin, hout⟩ := nonneg_of_find h hprice
      exact add_nonneg (hpart tokensIn _ hin) (hpart tokensOut _ hout)

end Pricebook

/-! ## Usage events -/

structure UsageEvent where
  id : String
  ts : String
  tenantId : String
  runId : String
  agentId : String
  model : String
  tokensIn : ℤ
  tokensOut : ℤ
  usdEstimate : ℚ
  source : String

/-- `usage_events`, with its unique key `(run_id, source)`. -/
abbrev Usages := Table UsageEvent (String × String) fun e => (e.runId, e.source)

def usageSourceTerminalOutput : String := "terminal_output"

/-- The row of an event, with the defaults of `WriteUsageEvent`. -/
def UsageEvent.row (ctx : Ctx) (now : String) (ev : UsageEvent) : UsageEvent :=
  { ev with
    tenantId := if ev.tenantId = "" then ctx.tenant else ev.tenantId
    ts := if ev.ts = "" then now else ev.ts
    source := if ev.source = "" then usageSourceTerminalOutput else ev.source }

def writeUsageEvent (ctx : Ctx) (now : String) (ev : UsageEvent) (usages : Usages) : Usages :=
  usages.upsert (ev.row ctx now)
    (fun old => { ev.row ctx now with id := old.id, runId := old.runId, source := old.source })
    fun _ => rfl

/-- The event that `persistTerminalUsage` writes for a run, if it writes one. -/
def terminalUsage (pb : Pricebook) (run : Run) (output : Output) : Option UsageEvent :=
  if output.isNone || Create.isSimulation run || run.isCacheHit || !run.status.terminal then none
  else
    let (usage, model) := extractRunUsageWithModel output
    if usage.promptTokens = 0 && usage.completionTokens = 0 && usage.costUsd = 0 &&
        !usage.unmetered then none
    else some {
      id := "usage-" ++ run.runId
      ts := run.updatedAt
      tenantId := run.tenantId
      runId := run.runId
      agentId := run.agentId
      model := model
      tokensIn := usage.promptTokens
      tokensOut := usage.completionTokens
      usdEstimate := pb.estimateUSD model usage.promptTokens usage.completionTokens usage.costUsd
      source := usageSourceTerminalOutput }

theorem terminalUsage_run {pb : Pricebook} {run : Run} {output : Output} {ev : UsageEvent}
    (h : terminalUsage pb run output = some ev) :
    ev.runId = run.runId ∧ ev.tenantId = run.tenantId ∧ ev.agentId = run.agentId ∧
      ev.ts = run.updatedAt ∧ ev.source = usageSourceTerminalOutput := by
  unfold terminalUsage at h
  split_ifs at h
  simp only at h
  split_ifs at h
  cases h
  exact ⟨rfl, rfl, rfl, rfl, rfl⟩

def persistTerminalUsage (pb : Pricebook) (ctx : Ctx) (now : String) (run : Run) (output : Output)
    (usages : Usages) : Usages :=
  match terminalUsage pb run output with
  | none => usages
  | some ev => writeUsageEvent ctx now ev usages

/-! ## Sums -/

/-- A tenant, an agent of it or all of them (`""`), and a day. -/
structure Scope where
  tenantId : String
  agentId : String
  since : String
  till : String

/-- The row of this tenant, agent and time is in the scope. -/
def Scope.has (scope : Scope) (tenantId agentId time : String) : Bool :=
  tenantId = scope.tenantId && scope.since ≤ time && time < scope.till &&
    (scope.agentId = "" || agentId = scope.agentId)

/-- `SUM` over integers, which fails on overflow. -/
def sumInt64 (ns : List ℤ) : Except StoreError ℤ :=
  ns.foldlM (fun sum n => if IsInt64 (sum + n) then .ok (sum + n)
    else .error (.statement "integer overflow")) 0

/-- The rows that `SumUsage` selects. -/
def Scope.usages (scope : Scope) (usages : Usages) : List UsageEvent :=
  usages.rows.filter fun e => scope.has e.tenantId e.agentId e.ts

def sumUsage (rows : List UsageEvent) : Except StoreError UsageTotals := do
  let tokensIn ← sumInt64 (rows.map UsageEvent.tokensIn)
  let tokensOut ← sumInt64 (rows.map UsageEvent.tokensOut)
  return ⟨tokensIn, tokensOut, (rows.map UsageEvent.usdEstimate).sum⟩

/-- A row of `usage_holds`. -/
structure OpenHold where
  hold : UsageHold
  createdAt : String

abbrev OpenHolds := Table OpenHold String fun h => h.hold.runId

/-- The rows that `SumUsageHolds` selects. -/
def Scope.holds (scope : Scope) (holds : OpenHolds) : List OpenHold :=
  holds.rows.filter fun h => scope.has h.hold.tenantId h.hold.agentId h.createdAt

def sumUsageHolds (rows : List OpenHold) : Except StoreError (ℚ × ℤ) := do
  let tokens ← sumInt64 (rows.map fun h => h.hold.tokensHold)
  return ((rows.map fun h => h.hold.usdHold).sum, tokens)

def countRunsSince (scope : Scope) (db : Db) : Except StoreError ℕ :=
  ((countSince scope.since scope.tenantId scope.agentId).run [] db).map Prod.fst

/-- The tables that a budget is checked against. -/
structure Spend where
  db : Db
  usages : Usages
  holds : OpenHolds

/-- `loadSnap`, with nothing between its reads. -/
def loadSnap (scope : Scope) (s : Spend) : Except StoreError UsageSnapshot := do
  let totals ← sumUsage (scope.usages s.usages)
  let runs ← countRunsSince scope s.db
  let held ← sumUsageHolds (scope.holds s.holds)
  return snapshot totals runs held

end Runkite
