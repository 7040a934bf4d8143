import Runkite.Budgets
import Runkite.Timestamps
import Runkite.ToolGate

/-!
# Windows of time on SQLite

A break-glass window, a day of usage events and a day of holds are all found by comparing texts : a
start that is at most a time, and an end that is greater. `exact_iff` says for which instants the
comparison of the texts is that of the instants, and `timeWindows_iff` that the three queries are
exact for those instants and for no others.
-/

open Timestamps (Instant newYear)
open Timestamps.Instant (Confused)

namespace Runkite

def formatTS (t : Instant) : String := t.rfc3339Nano

/-! ## The law of a window -/

/-- The instants that the texts of a window place correctly. Inside the window neither bound may be
confused with the time. Outside, a confused bound lets the time in unless the other bound keeps it
out. -/
structure Sharp (start time stop : Instant) : Prop where
  inside : start ≤ time → time < stop → ¬ Confused start time ∧ ¬ Confused time stop
  early : time < start → time < stop → Confused start time → Confused time stop
  late : start ≤ time → stop ≤ time → Confused time stop → Confused start time
  neither : time < start → stop ≤ time → Confused start time → ¬ Confused time stop

theorem formatTS_le_iff (a b : Instant) : formatTS a ≤ formatTS b ↔ (a ≤ b ↔ ¬ Confused a b) := by
  rw [formatTS, formatTS, Instant.text_le_iff]
  by_cases h : Confused a b
  · have hne : a ≠ b := fun heq => Instant.not_confused_self b (heq ▸ h)
    simp only [h, if_true, not_true_eq_false, iff_false, not_le]
    exact ⟨fun hle => lt_of_le_of_ne hle hne.symm, le_of_lt⟩
  · simp [h]

theorem formatTS_lt_iff (a b : Instant) :
    formatTS a < formatTS b ↔ (a < b ↔ ¬ Confused a b) ∧ a ≠ b := by
  rw [formatTS, formatTS, Instant.text_lt_iff]
  by_cases h : Confused a b
  · have hne : a ≠ b := fun heq => Instant.not_confused_self b (heq ▸ h)
    simp only [h, if_true, not_true_eq_false, iff_false, not_lt, hne, ne_eq, not_false_eq_true,
      and_true]
    exact ⟨le_of_lt, fun hle => lt_of_le_of_ne hle hne.symm⟩
  · simp only [h, if_false, not_false_eq_true, iff_true]
    exact ⟨fun hlt => ⟨hlt, hlt.ne⟩, fun hlt => hlt.1⟩

/-- The texts place a time in a window as the instants do exactly if the window is sharp there. -/
theorem exact_iff (start time stop : Instant) :
    (formatTS start ≤ formatTS time ∧ formatTS time < formatTS stop ↔
        start ≤ time ∧ time < stop) ↔ Sharp start time stop := by
  have hstop : time ≠ stop ∨ ¬ Confused time stop := by
    by_cases heq : time = stop
    · exact .inr (heq ▸ Instant.not_confused_self time)
    · exact .inl heq
  rw [formatTS_le_iff, formatTS_lt_iff]
  constructor
  · intro h
    refine ⟨?_, ?_, ?_, ?_⟩
    · intro h₁ h₂
      obtain ⟨hfrom, hto, -⟩ := h.2 ⟨h₁, h₂⟩
      exact ⟨hfrom.1 h₁, hto.1 h₂⟩
    · intro h₁ h₂ hc
      by_contra hc'
      exact absurd (h.1 ⟨by simp [hc, h₁], by simp [hc', h₂, h₂.ne]⟩).1 h₁.not_ge
    · intro h₁ h₂ hc
      by_contra hc'
      have hne := hstop.resolve_right (not_not.2 hc)
      exact absurd (h.1 ⟨by simp [hc', h₁], by simp [hc, h₂, hne]⟩).2 h₂.not_gt
    · intro h₁ h₂ hc hc'
      have hne := hstop.resolve_right (not_not.2 hc')
      exact absurd (h.1 ⟨by simp [hc, h₁], by simp [hc', h₂, hne]⟩).1 h₁.not_ge
  · rintro ⟨hinside, hearly, hlate, hneither⟩
    constructor
    · rintro ⟨h₁, h₂, -⟩
      -- A bound that is on the wrong side of the time is confused with it.
      have hc₁ : ¬ start ≤ time → Confused start time := fun hs => by_contra fun hc => hs (h₁.2 hc)
      have hc₂ : ¬ time < stop → Confused time stop := fun ht => by_contra fun hc => ht (h₂.2 hc)
      by_cases hs : start ≤ time
      · by_cases ht : time < stop
        · exact ⟨hs, ht⟩
        · exact absurd (hlate hs (not_lt.1 ht) (hc₂ ht)) (h₁.1 hs)
      · by_cases ht : time < stop
        · exact absurd (hearly (not_le.1 hs) ht (hc₁ hs)) (h₂.1 ht)
        · exact absurd (hc₂ ht) (hneither (not_le.1 hs) (not_lt.1 ht) (hc₁ hs))
    · rintro ⟨hs, ht⟩
      obtain ⟨hc₁, hc₂⟩ := hinside hs ht
      exact ⟨iff_of_true hs hc₁, iff_of_true ht hc₂, ht.ne⟩

/-! ## The queries -/

/-- The window is for the tenant and the agent. -/
def BreakGlassWindow.appliesTo (tenantId agentId : String) (w : BreakGlassWindow) : Bool :=
  w.tenantId = tenantId && (w.agentId = agentId || w.agentId = "")

/-- Agent-scoped windows first, then by the text of their end. -/
def BreakGlassWindow.rank (agentId : String) (w : BreakGlassWindow) : ℕ ×ₗ String :=
  toLex (if w.agentId = agentId then 0 else 1, w.expiresAt)

def findActiveBreakGlass (tenantId agentId : String) (now : Instant)
    (windows : List BreakGlassWindow) : Option BreakGlassWindow :=
  ((windows.filter (·.covers (formatTS now) tenantId agentId)).insertionSort
    fun a b => a.rank agentId ≤ b.rank agentId).head?

/-- The days and other spans that `SumUsage` and `SumUsageHolds` are called with. -/
def Scope.between (tenantId agentId : String) (since till : Instant) : Scope :=
  ⟨tenantId, agentId, formatTS since, formatTS till⟩

/-- The row is of the tenant, and of the agent if the scope is of one. -/
def Scope.appliesTo (scope : Scope) (tenantId agentId : String) : Bool :=
  tenantId = scope.tenantId && (scope.agentId = "" || agentId = scope.agentId)

theorem BreakGlassWindow.covers_iff (now tenantId agentId : String) (w : BreakGlassWindow) :
    w.covers now tenantId agentId ↔
      w.appliesTo tenantId agentId ∧ w.startsAt ≤ now ∧ now < w.expiresAt := by
  simp only [covers, appliesTo, Bool.and_eq_true, decide_eq_true_eq]
  tauto

theorem Scope.has_iff (scope : Scope) (tenantId agentId time : String) :
    scope.has tenantId agentId time ↔
      scope.appliesTo tenantId agentId ∧ scope.since ≤ time ∧ time < scope.till := by
  simp only [has, appliesTo, Bool.and_eq_true, decide_eq_true_eq]
  tauto

theorem exists_findActiveBreakGlass {tenantId agentId : String} {now : Instant}
    {windows : List BreakGlassWindow} :
    (∃ w ∈ windows, w.appliesTo tenantId agentId ∧
      findActiveBreakGlass tenantId agentId now windows = some w) ↔
      ∃ w ∈ windows, w.covers (formatTS now) tenantId agentId := by
  have hmem : ∀ w, w ∈ (windows.filter (·.covers (formatTS now) tenantId agentId)).insertionSort
      (fun a b => a.rank agentId ≤ b.rank agentId) ↔
      w ∈ windows ∧ w.covers (formatTS now) tenantId agentId := fun w => by
    rw [List.mem_insertionSort, List.mem_filter]
  constructor
  · rintro ⟨w, -, -, hfound⟩
    exact ⟨w, (hmem w).1 (List.mem_of_mem_head? hfound)⟩
  · rintro ⟨w, hw⟩
    obtain ⟨found, hfound⟩ := Option.isSome_iff_exists.1
      (List.isSome_head?.2 (List.ne_nil_of_mem ((hmem w).2 hw)))
    obtain ⟨hin, hcovers⟩ := (hmem found).1 (List.mem_of_mem_head? hfound)
    exact ⟨found, hin, ((BreakGlassWindow.covers_iff ..).1 hcovers).1, hfound⟩

/-- Break-glass windows from `start` to `stop` are found at the time exactly if it is in them. -/
def FindsExactly (start time stop : Instant) : Prop :=
  ∀ (tenantId agentId : String) (windows : List BreakGlassWindow),
    (∀ w ∈ windows, w.appliesTo tenantId agentId →
      w.startsAt = formatTS start ∧ w.expiresAt = formatTS stop) →
    (∃ w ∈ windows, w.appliesTo tenantId agentId) →
    ((∃ w ∈ windows, w.appliesTo tenantId agentId ∧
      findActiveBreakGlass tenantId agentId time windows = some w) ↔ start ≤ time ∧ time < stop)

/-- A usage event of the time is counted from `since` to `till` exactly if it is in between. -/
def CountsUsageExactly (since time till : Instant) : Prop :=
  ∀ (tenantId agentId : String) (usages : Usages), ∀ e ∈ usages.rows, e.ts = formatTS time →
    (Scope.between tenantId agentId since till).appliesTo e.tenantId e.agentId →
    (e ∈ (Scope.between tenantId agentId since till).usages usages ↔ since ≤ time ∧ time < till)

/-- A hold of the time is counted from `since` to `till` exactly if it is in between. -/
def CountsHoldsExactly (since time till : Instant) : Prop :=
  ∀ (tenantId agentId : String) (holds : OpenHolds), ∀ h ∈ holds.rows, h.createdAt = formatTS time →
    (Scope.between tenantId agentId since till).appliesTo h.hold.tenantId h.hold.agentId →
    (h ∈ (Scope.between tenantId agentId since till).holds holds ↔ since ≤ time ∧ time < till)

theorem findsExactly_iff (start time stop : Instant) :
    FindsExactly start time stop ↔ Sharp start time stop := by
  rw [← exact_iff]
  constructor
  · intro h
    have hone := h "" "" [⟨"", "", "", formatTS start, formatTS stop⟩]
      (List.forall_mem_singleton.2 fun _ => ⟨rfl, rfl⟩) ⟨_, List.mem_singleton_self _, rfl⟩
    rw [exists_findActiveBreakGlass] at hone
    simpa [BreakGlassWindow.covers_iff, BreakGlassWindow.appliesTo] using hone
  · intro h tenantId agentId windows htimes ⟨w, hw, happlies⟩
    rw [exists_findActiveBreakGlass, ← h]
    simp only [BreakGlassWindow.covers_iff]
    constructor
    · rintro ⟨v, hv, hv', hcovers⟩
      rwa [(htimes v hv hv').1, (htimes v hv hv').2] at hcovers
    · rw [← (htimes w hw happlies).1, ← (htimes w hw happlies).2]
      exact fun hcovers => ⟨w, hw, happlies, hcovers⟩

theorem countsUsageExactly_iff (since time till : Instant) :
    CountsUsageExactly since time till ↔ Sharp since time till := by
  rw [← exact_iff]
  constructor
  · intro h
    have hone := h "" "" ⟨[⟨"", formatTS time, "", "", "", "", 0, 0, 0, ""⟩],
      List.nodup_singleton _⟩ _ List.mem_cons_self rfl rfl
    rw [Scope.usages, List.mem_filter, and_iff_right List.mem_cons_self, Scope.has_iff] at hone
    exact (and_iff_right rfl).symm.trans hone
  · intro h tenantId agentId usages e he hts happlies
    rw [Scope.usages, List.mem_filter, and_iff_right he, Scope.has_iff, and_iff_right happlies, hts]
    exact h

theorem countsHoldsExactly_iff (since time till : Instant) :
    CountsHoldsExactly since time till ↔ Sharp since time till := by
  rw [← exact_iff]
  constructor
  · intro h
    have hone := h "" "" ⟨[⟨⟨"", "", "", 0, 0⟩, formatTS time⟩], List.nodup_singleton _⟩ _
      List.mem_cons_self rfl rfl
    rw [Scope.holds, List.mem_filter, and_iff_right List.mem_cons_self, Scope.has_iff] at hone
    exact (and_iff_right rfl).symm.trans hone
  · intro h tenantId agentId holds r hr hts happlies
    rw [Scope.holds, List.mem_filter, and_iff_right hr, Scope.has_iff, and_iff_right happlies, hts]
    exact h

/-- Each of the three queries is exact for a start, a time and an end exactly if the window is sharp
there. -/
theorem timeWindows_iff (start time stop : Instant) :
    (FindsExactly start time stop ↔ Sharp start time stop) ∧
      (CountsUsageExactly start time stop ↔ Sharp start time stop) ∧
      (CountsHoldsExactly start time stop ↔ Sharp start time stop) :=
  ⟨findsExactly_iff start time stop, countsUsageExactly_iff start time stop,
    countsHoldsExactly_iff start time stop⟩

/-- The start of a second and its middle. -/
def halfSecond (second nanos : ℕ) (hs : second < 60) (hn : nanos < 10 ^ 9) : Instant :=
  { newYear nanos hn with
    second := second
    second_lt := hs }

/-- One event of a time. -/
def oneUsage (time : Instant) : Usages :=
  ⟨[⟨"usage-r", formatTS time, "acme", "r", "agent", "", 1, 1, 0, usageSourceTerminalOutput⟩],
    List.nodup_singleton _⟩

/-- One hold of a time. -/
def oneHold (time : Instant) : OpenHolds :=
  ⟨[⟨⟨"r", "acme", "agent", 1, 0⟩, formatTS time⟩], List.nodup_singleton _⟩

/-- A window that ended half a second ago is found, and neither an event nor a hold of the first
second of a span is counted in it. -/
theorem wholeSecond_misplaced :
    halfSecond 10 0 (by decide) (by decide) ≤ halfSecond 10 500000000 (by decide) (by decide) ∧
      (findActiveBreakGlass "acme" "agent" (halfSecond 10 500000000 (by decide) (by decide))
        [⟨"w", "acme", "", formatTS (halfSecond 0 0 (by decide) (by decide)),
          formatTS (halfSecond 10 0 (by decide) (by decide))⟩]).isSome = true ∧
      halfSecond 0 0 (by decide) (by decide) ≤ halfSecond 0 500000000 (by decide) (by decide) ∧
      halfSecond 0 500000000 (by decide) (by decide) < halfSecond 10 0 (by decide) (by decide) ∧
      ((Scope.between "acme" "" (halfSecond 0 0 (by decide) (by decide))
        (halfSecond 10 0 (by decide) (by decide))).usages
          (oneUsage (halfSecond 0 500000000 (by decide) (by decide)))).isEmpty = true ∧
      ((Scope.between "acme" "" (halfSecond 0 0 (by decide) (by decide))
        (halfSecond 10 0 (by decide) (by decide))).holds
          (oneHold (halfSecond 0 500000000 (by decide) (by decide)))).isEmpty = true := by
  refine ⟨by decide +kernel, by decide +kernel, by decide +kernel, by decide +kernel,
    by decide +kernel, by decide +kernel⟩

end Runkite
