import Runkite.Admission

/-!
# The caps of a day

A tenant and each of its agents may have a cap on the money, the tokens and the runs of a day.
`evaluateCap` compares a cap with what has been spent, and `approachCap` says that a hard cap is not
reached yet but a given share of it is. `Budgets.near` is the use of both by the budget routing, and
`Budgets.near_iff` says what it comes to : some ceiling is spent up to the share, or up to the whole
if the cap is soft.

Amounts of money are exact, and so are the shares of counts.
-/

namespace Runkite

/-! ## Machine integers -/

/-- The `int64` that arithmetic with the exact result `n` leaves. -/
def int64 (n : ℤ) : ℤ := n.bmod (2 ^ 64)

def IsInt64 (n : ℤ) : Prop := -2 ^ 63 ≤ n ∧ n < 2 ^ 63

instance (n : ℤ) : Decidable (IsInt64 n) := inferInstanceAs (Decidable (_ ∧ _))

theorem int64_cases (n : ℤ) : IsInt64 (int64 n) ∧ ∃ k, int64 n = n + 2 ^ 64 * k := by
  unfold int64 IsInt64
  rw [Int.bmod_def]
  refine ⟨by split_ifs <;> omega, ?_⟩
  split_ifs
  · exact ⟨-(n / 2 ^ 64), by omega⟩
  · exact ⟨-(n / 2 ^ 64) - 1, by omega⟩

theorem isInt64_int64 (n : ℤ) : IsInt64 (int64 n) := (int64_cases n).1

theorem int64_eq_self {n : ℤ} : int64 n = n ↔ IsInt64 n := by
  obtain ⟨hrange, k, _⟩ := int64_cases n
  unfold IsInt64 at hrange ⊢
  omega

/-- Arithmetic that wraps around twice wraps around once. -/
theorem int64_add_int64 (m n : ℤ) : int64 (int64 m + n) = int64 (m + n) := Int.bmod_add_bmod

/-! ## What was spent -/

structure UsageTotals where
  tokensIn : ℤ
  tokensOut : ℤ
  usd : ℚ
deriving DecidableEq

structure UsageSnapshot where
  tokensIn : ℤ
  tokensOut : ℤ
  usd : ℚ
  runs : ℤ
deriving DecidableEq

def UsageSnapshot.tokens (snap : UsageSnapshot) : ℤ := int64 (snap.tokensIn + snap.tokensOut)

/-- The snapshot of the three sums. Holds are not split into tokens in and out, and their runs are
counted already. -/
def snapshot (totals : UsageTotals) (runs : ℕ) (held : ℚ × ℤ) : UsageSnapshot where
  tokensIn := int64 (totals.tokensIn + held.2)
  tokensOut := totals.tokensOut
  usd := totals.usd + held.1
  runs := runs

/-- What the usage store answers about an agent and a day; a call that fails answers nothing. -/
structure UsageSums where
  usage : Option UsageTotals := none
  runs : Option ℕ := none
  holds : Option (ℚ × ℤ) := none

/-- `load` in `applyFinOpsRouting` : holds that cannot be read count as none. -/
def UsageSums.load (sums : UsageSums) : Option UsageSnapshot := do
  let totals ← sums.usage
  let runs ← sums.runs
  return snapshot totals runs (sums.holds.getD (0, 0))

/-! ## Caps -/

structure BudgetCap where
  maxUsdPerDay : ℚ := 0
  maxTokensPerDay : ℤ := 0
  maxRunsPerDay : ℤ := 0
  soft : Bool := false

structure Budgets where
  tenants : List (String × BudgetCap) := []
  agents : List (String × BudgetCap) := []

/-- `LookupCaps`, with the scope of each cap. -/
def Budgets.lookupCaps (b : Budgets) (tenantId agentId : String) :
    Option BudgetCap × Option BudgetCap :=
  (if tenantId = "" then none else b.tenants.lookup tenantId,
    if tenantId = "" || agentId = "" then none else b.agents.lookup (tenantId ++ "/" ++ agentId))

inductive CapKind where
  | usd
  | tokens
  | runs
deriving DecidableEq

def CapKind.text : CapKind → String
  | .usd => "usd"
  | .tokens => "tokens"
  | .runs => "runs"

def AdmissionScope.text : AdmissionScope → String
  | .tenant => "tenant"
  | .agent => "agent"

structure BudgetVerdict where
  allow : Bool
  soft : Bool := false
  hard : Bool := false
  reason : String := ""
  /-- The scope and the kind of the cap that was reached. -/
  cap : Option (AdmissionScope × CapKind) := none

/-- The verdict on one of the three ceilings, if it is reached. -/
def BudgetCap.check (cap : BudgetCap) (scope : AdmissionScope) (kind : CapKind) (reached : Bool) :
    Option BudgetVerdict :=
  if reached then
    some { allow := cap.soft, soft := cap.soft, hard := !cap.soft
           reason := scope.text ++ " " ++ kind.text ++ " budget exceeded", cap := some (scope, kind) }
  else none

/-- A ceiling; one that is zero or less is none. -/
def BudgetCap.max (cap : BudgetCap) : CapKind → ℚ
  | .usd => cap.maxUsdPerDay
  | .tokens => cap.maxTokensPerDay
  | .runs => cap.maxRunsPerDay

def UsageSnapshot.used (snap : UsageSnapshot) : CapKind → ℚ
  | .usd => snap.usd
  | .tokens => snap.tokens
  | .runs => snap.runs

def BudgetCap.over (cap : BudgetCap) (snap : UsageSnapshot) (kind : CapKind) : Bool :=
  0 < cap.max kind && cap.max kind ≤ snap.used kind

/-- The first hard verdict, or else the first soft one. -/
def evaluateCap (cap : Option BudgetCap) (snap : UsageSnapshot) (scope : AdmissionScope) :
    BudgetVerdict :=
  match cap with
  | none => { allow := true }
  | some cap =>
    let verdicts := [CapKind.usd, .tokens, .runs].filterMap fun kind =>
      cap.check scope kind (cap.over snap kind)
    ((verdicts.find? BudgetVerdict.hard).or verdicts.head?).getD { allow := true }

theorem evaluateCap_spec (cap : BudgetCap) (snap : UsageSnapshot) (scope : AdmissionScope) :
    let tripped := [CapKind.usd, .tokens, .runs].any (cap.over snap)
    (evaluateCap (some cap) snap scope).hard = (!cap.soft && tripped) ∧
      (evaluateCap (some cap) snap scope).soft = (cap.soft && tripped) := by
  simp only [evaluateCap, BudgetCap.check, List.filterMap_cons, List.filterMap_nil, List.any_cons,
    List.any_nil]
  generalize cap.soft = soft, cap.over snap .usd = usd, cap.over snap .tokens = tokens,
    cap.over snap .runs = runs
  cases soft <;> cases usd <;> cases tokens <;> cases runs <;> exact ⟨rfl, rfl⟩

theorem BudgetCap.tripped_iff (cap : BudgetCap) (snap : UsageSnapshot) :
    [CapKind.usd, .tokens, .runs].any (cap.over snap) = true ↔
      ∃ kind, 0 < cap.max kind ∧ cap.max kind ≤ snap.used kind := by
  simp only [List.any_eq_true, BudgetCap.over, Bool.and_eq_true, decide_eq_true_eq]
  exact exists_congr fun kind => and_iff_right (by cases kind <;> simp)

/-- A verdict stays hard as the spend grows. -/
theorem hard_of_le {cap : Option BudgetCap} {snap snap' : UsageSnapshot} {scope : AdmissionScope}
    (hused : ∀ kind, snap.used kind ≤ snap'.used kind) (h : (evaluateCap cap snap scope).hard) :
    (evaluateCap cap snap' scope).hard := by
  cases cap with
  | none => cases h
  | some cap =>
    simp only [(evaluateCap_spec ..).1, Bool.and_eq_true, BudgetCap.tripped_iff] at h ⊢
    obtain ⟨hsoft, kind, hpos, hover⟩ := h
    exact ⟨hsoft, kind, hpos, hover.trans (hused kind)⟩

/-! ## Caps that are nearly reached -/

/-- The share of a ceiling from which `ApproachCap` reports it. -/
def approachShare (softPct : ℚ) : ℚ :=
  let softPct := if softPct ≤ 0 then 80 else softPct
  (if 100 < softPct then 100 else softPct) / 100

def approachCap (cap : Option BudgetCap) (snap : UsageSnapshot) (scope : AdmissionScope)
    (softPct : ℚ) : Option BudgetVerdict :=
  match cap with
  | none => none
  | some cap =>
    if cap.soft then none
    else [CapKind.usd, .tokens, .runs].findSome? fun kind =>
      if cap.max kind ≤ 0 ∨ snap.used kind < cap.max kind * approachShare softPct ∨
        cap.max kind ≤ snap.used kind then none
      else some { allow := true, soft := true
                  reason := scope.text ++ " " ++ kind.text ++ " budget approaching"
                  cap := some (scope, kind) }

/-- The loop of `applyFinOpsRouting` over the caps of the tenant and of the agent. -/
def Budgets.near (b : Budgets) (softPct : ℚ) (sums : String → UsageSums) (tenantId agentId : String) :
    Bool :=
  let caps := b.lookupCaps tenantId agentId
  [(caps.1, "", AdmissionScope.tenant), (caps.2, agentId, .agent)].any fun (cap, agent, scope) =>
    match cap, (sums agent).load with
    | some cap, some snap => (approachCap (some cap) snap scope softPct).isSome ||
      (evaluateCap (some cap) snap scope).soft || (evaluateCap (some cap) snap scope).hard
    | _, _ => false

/-- Some ceiling of the cap is spent up to the share, or wholly if the cap is soft. -/
def BudgetCap.NearlySpent (cap : BudgetCap) (softPct : ℚ) (snap : UsageSnapshot) : Prop :=
  ∃ kind, 0 < cap.max kind ∧
    (if cap.soft then cap.max kind else cap.max kind * approachShare softPct) ≤ snap.used kind

/-- The cap of the tenant is nearly spent by all its agents, or the cap of the agent by the agent. -/
def Budgets.NearlySpent (b : Budgets) (softPct : ℚ) (sums : String → UsageSums)
    (tenantId agentId : String) : Prop :=
  (∃ cap snap, (b.lookupCaps tenantId agentId).1 = some cap ∧ (sums "").load = some snap ∧
    cap.NearlySpent softPct snap) ∨
  ∃ cap snap, (b.lookupCaps tenantId agentId).2 = some cap ∧ (sums agentId).load = some snap ∧
    cap.NearlySpent softPct snap

theorem approachShare_le_one (softPct : ℚ) : approachShare softPct ≤ 1 := by
  unfold approachShare
  dsimp only
  split_ifs <;> linarith

theorem approachCap_isSome (cap : BudgetCap) (snap : UsageSnapshot) (scope : AdmissionScope)
    (softPct : ℚ) : (approachCap (some cap) snap scope softPct).isSome = true ↔
      cap.soft = false ∧ ∃ kind, 0 < cap.max kind ∧
        cap.max kind * approachShare softPct ≤ snap.used kind ∧ snap.used kind < cap.max kind := by
  rw [approachCap]
  cases cap.soft with
  | true => simp
  | false =>
    rw [if_neg Bool.false_ne_true, List.findSome?_isSome_iff]
    simp only [true_and]
    constructor
    · rintro ⟨kind, -, h⟩
      split_ifs at h with hnot
      · cases h
      · push Not at hnot
        exact ⟨kind, hnot⟩
    · rintro ⟨kind, h⟩
      refine ⟨kind, by cases kind <;> simp, ?_⟩
      rw [if_neg (by push Not; exact h)]
      rfl

theorem BudgetCap.nearlySpent_iff (cap : BudgetCap) (snap : UsageSnapshot) (scope : AdmissionScope)
    (softPct : ℚ) : ((approachCap (some cap) snap scope softPct).isSome ||
      (evaluateCap (some cap) snap scope).soft || (evaluateCap (some cap) snap scope).hard) = true ↔
      cap.NearlySpent softPct snap := by
  obtain ⟨hhard, hsoft⟩ := evaluateCap_spec cap snap scope
  rw [hhard, hsoft, Bool.or_assoc, Bool.or_eq_true, approachCap_isSome, NearlySpent]
  cases cap.soft with
  | true => simpa using cap.tripped_iff snap
  | false =>
    simp only [true_and, Bool.false_eq_true, if_false, Bool.not_false, Bool.true_and, Bool.false_and,
      Bool.false_or, tripped_iff]
    constructor
    · rintro (⟨kind, hpos, hshare, -⟩ | ⟨kind, hpos, hover⟩)
      · exact ⟨kind, hpos, hshare⟩
      · refine ⟨kind, hpos, le_trans ?_ hover⟩
        exact mul_le_of_le_one_right hpos.le (approachShare_le_one softPct)
    · rintro ⟨kind, hpos, hshare⟩
      rcases lt_or_ge (snap.used kind) (cap.max kind) with hlt | hge
      · exact .inl ⟨kind, hpos, hshare, hlt⟩
      · exact .inr ⟨kind, hpos, hge⟩

theorem Budgets.near_iff (b : Budgets) (softPct : ℚ) (sums : String → UsageSums)
    (tenantId agentId : String) :
    b.near softPct sums tenantId agentId = true ↔ b.NearlySpent softPct sums tenantId agentId := by
  unfold near NearlySpent
  simp only [List.any_cons, List.any_nil, Bool.or_false, Bool.or_eq_true]
  refine or_congr ?_ ?_
  all_goals
    split
    · rename_i cap snap hcap hsnap
      simp only [hcap, hsnap, BudgetCap.nearlySpent_iff, Option.some.injEq, exists_and_left,
        exists_eq_left']
    · rename_i hnone
      simp only [Bool.false_eq_true, false_iff]
      rintro ⟨cap, snap, hcap, hsnap, -⟩
      exact hnone cap snap hcap hsnap

end Runkite
