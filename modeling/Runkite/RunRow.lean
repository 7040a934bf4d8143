import Runkite.AttemptFence
import Runkite.StreamTruth

/-!
# The row of a run under attempts and completions

From the creation of a run on, its row is determined by its attempt generation and its status as
far as new attempts and completions are concerned (`RowIs`) : a new attempt raises the generation
of a run that is not terminal, a completion of the current generation makes it terminal, and
nothing changes after that.
-/

open Json (Members Number Text marshal)
open Transaction (Driver)

namespace Runkite

/-- The run's row has the attempt generation `g` and the status, and it is terminal only by a
completion of `g`. -/
def RowIs (runId : String) (g : ℤ) (status : RunStatus) (db : Db) : Prop :=
  ∃ r m, db.runs.get? runId = some r ∧ Fenced r g m ∧ r.status = status ∧
    (status.terminal = true → m.lookup completionGenerationKey = some (.number (.float64 g)))

variable {d : Dialect} {runId : String} {g : ℤ} {status : RunStatus} {db : Db} {ctx : Ctx}
  {c : RunCompletion} {now : String} {driver : Driver StoreError} {r : Run}

theorem rowIs_new (hr : db.runs.get? runId = some r) (hnew : r.Unreserved)
    (hdecodes : (decodeMetadata r.metadata).isSome) (hactive : r.status.terminal = false) :
    RowIs runId 0 r.status db := by
  obtain ⟨m, hm⟩ := Option.isSome_iff_exists.1 hdecodes
  obtain ⟨r', hr', hrow⟩ := fenceInv_of_unreserved hr hnew
  obtain rfl : r' = r := Option.mem_unique hr' hr
  rcases hrow with hnone | ⟨g, m', hf⟩
  · simp [hm] at hnone
  obtain ⟨hattempt, -⟩ := hnew m' hf.decoded
  obtain rfl : g = 0 := by
    rcases hf.attempt with ⟨-, hg⟩ | hsome
    · exact hg
    · simp [hattempt] at hsome
  exact ⟨r', m', hr, hf, rfl, by simp [hactive]⟩

theorem RowIs.unique {g' : ℤ} {status' : RunStatus} (h : RowIs runId g status db)
    (h' : RowIs runId g' status' db) : g = g' ∧ status = status' := by
  obtain ⟨r, m, hr, hf, rfl, -⟩ := h
  obtain ⟨_, _, hr', hf', rfl, -⟩ := h'
  cases hr.symm.trans hr'
  cases hf.decoded.symm.trans hf'.decoded
  refine ⟨?_, rfl⟩
  rw [← hf.attempt.metadataGeneration hf.small, hf'.attempt.metadataGeneration hf'.small]

/-- What `GetRun` returns. -/
theorem RowIs.read (h : RowIs runId g status db) (hr : db.readRun driver ctx runId = .ok r) :
    r.status = status ∧ metadataGeneration r.metadataMap attemptGenerationKey = g := by
  obtain ⟨r', m, hr', hf, rfl, -⟩ := h
  obtain rfl : r' = r := Option.some.inj (hr'.symm.trans (readRun_ok hr))
  refine ⟨rfl, ?_⟩
  rw [Run.metadataMap, hf.decoded]
  exact hf.attempt.metadataGeneration hf.small

theorem RowIs.of_beginRunAttempt (h : RowIs runId g status db) (ctx : Ctx) {generation : ℤ}
    (hsmall : |generation| ≤ 2 ^ 53) (now : String) (driver : Driver StoreError) :
    RowIs runId g status (beginRunAttempt ctx runId generation now driver db).2 ∨
      status.terminal = false ∧ g ≤ generation ∧
        RowIs runId generation .running (beginRunAttempt ctx runId generation now driver db).2 := by
  obtain ⟨r, m, hr, hf, rfl, hclosed⟩ := h
  rcases perform_begin_cases {} ctx now driver hr generation with
    heq | ⟨m', raw, hm, hterm, hle, hraw, hget⟩
  · have heq' : (beginRunAttempt ctx runId generation now driver db).2 = db := heq
    exact .inl ⟨r, m, by rw [heq', hr], hf, rfl, hclosed⟩
  · cases hm.symm.trans hf.decoded
    obtain ⟨m'', hf'⟩ : ∃ m'', Fenced
        { r with metadata := raw, status := .running, updatedAt := now } generation m'' :=
      hf.begin hsmall hterm hraw rfl
    rw [hf.attempt.metadataGeneration hf.small] at hle
    exact .inr ⟨hterm, hle, _, m'', hget, hf', rfl, by simp [RunStatus.terminal]⟩

/-- A completion changes nothing, or closes the run under its attempt generation. -/
theorem RowIs.of_completeRun (h : RowIs c.runId g status db) (d : Dialect) (ctx : Ctx)
    (now : String) (driver : Driver StoreError) : (completeRun d ctx c now driver db).2 = db ∨
      status.terminal = false ∧ c.status.terminal ∧
        (c.takesCurrent = false → c.generation = g) ∧
        RowIs c.runId g c.status (completeRun d ctx c now driver db).2 := by
  obtain ⟨r, m, hr, hf, rfl, _⟩ := h
  rcases FenceInv.complete_cases ⟨r, hr, .inr ⟨g, m, hf⟩⟩ d ctx c now driver with
    ⟨-, heq⟩ | ⟨-, hterm, hopen, g', hg', hcur, r', m', hget, hf', hst, hkey⟩
  · exact .inl heq
  · obtain rfl : g' = g := by exact_mod_cast hg'.symm.trans (durableGeneration_of_fenced hr hf)
    exact .inr ⟨hopen r hr, hterm, hcur, r', m', hget, hf', hst, fun _ => hkey⟩

/-- The fence of a completion, on the row as it is. -/
theorem RowIs.check (h : RowIs runId g status db) (hr : db.runs.get? runId = some r)
    {m : Members Number} (hm : decodeMetadata r.metadata = some m)
    (hterm : c.status.terminal) : checkCompletion m r.status c =
      if c.generation ≠ g then ⟨false, false⟩
      else if status.terminal then ⟨status = c.status, false⟩ else ⟨true, true⟩ := by
  obtain ⟨r', m', hr', hf, rfl, hclosed⟩ := h
  obtain rfl : r' = r := Option.mem_unique hr' hr
  obtain rfl : m' = m := Option.mem_unique hf.decoded hm
  have hgen := hf.attempt.metadataGeneration hf.small
  unfold checkCompletion
  rw [if_neg (by simp [hterm]), hgen]
  by_cases hne : c.generation ≠ g
  · rw [if_pos hne, if_pos hne]
  rw [if_neg hne, if_neg hne]
  by_cases hst : r'.status.terminal
  · have hkey := hclosed hst
    have hcompleted : metadataGeneration m' completionGenerationKey = g := by
      simp [metadataGeneration, hkey, int64OfFloat_intCast hf.small]
    rw [if_pos (by simp [hkey]), if_pos hst, hcompleted]
    have hg : g = c.generation := by simpa using (not_not.1 hne).symm
    simp [hg]
  · have hnone : m'.lookup completionGenerationKey = none :=
      hf.completion.resolve_right fun hc => hst hc.2
    rw [if_neg (by simp [hnone]), if_neg hst, if_neg hst]

/-- What the transaction of a completion answers, for a completion with its own generation. -/
theorem RowIs.result {result : CompletionResult} (h : RowIs c.runId g status db)
    (hterm : c.status.terminal) (hown : c.cancelCurrentAttempt = false)
    (hok : (completeRun d ctx c now driver db).1 = .ok result) :
    result.accepted ∧ c.generation = g ∧
        RowIs c.runId g c.status (completeRun d ctx c now driver db).2 ∨
      result.accepted = false ∧ (c.generation ≠ g ∨ status.terminal ∧ status ≠ c.status) ∧
        (completeRun d ctx c now driver db).2 = db := by
  obtain ⟨db', hrun, hdb⟩ := Transaction.transact_ok hok
  obtain ⟨r, l, hr, hl, hres, _⟩ := run_completeRunInTx_ok hrun
  obtain ⟨hm, -, -, hst⟩ := loaded_ok_iff.1 hl
  have hresolve : resolveCompletion l.metadata c = c := by simp [resolveCompletion, hown]
  have hcur : c.takesCurrent = false := by simp [RunCompletion.takesCurrent, hown]
  rw [hresolve, hst, h.check (get?_of_getRun hr) hm hterm] at hres
  have hdb' : (completeRun d ctx c now driver db).2 = if result.applied then db' else db :=
    hdb
  by_cases hne : c.generation ≠ g
  · rw [if_pos hne] at hres
    exact .inr ⟨by rw [hres], .inl hne, by rw [hdb', hres]; rfl⟩
  rw [if_neg hne] at hres
  have hg : c.generation = g := not_not.1 hne
  by_cases hclosed : status.terminal
  · rw [if_pos hclosed] at hres
    have hsame : (completeRun d ctx c now driver db).2 = db := by
      rw [hdb', hres]
      rfl
    by_cases hstatus : status = c.status
    · exact .inl ⟨by simp [hres, hstatus], hg, by rw [hsame]; exact hstatus ▸ h⟩
    · exact .inr ⟨by simp [hres, hstatus], .inr ⟨hclosed, hstatus⟩, hsame⟩
  · rw [if_neg hclosed] at hres
    have haccepted : result.accepted := by rw [hres]
    refine .inl ⟨haccepted, hg, ?_⟩
    rcases h.of_completeRun d ctx now driver with hsame | hnew
    · -- the row did not change, but it is closed now
      obtain ⟨_, hr', hst', hterm'⟩ := closed_of_accepted hok haccepted
      obtain ⟨_, _, hr₀, -, hst₀, -⟩ := h
      rw [hsame, hr₀] at hr'
      cases hr'
      exact absurd (hst₀ ▸ hst' ▸ hterm') hclosed
    · exact hnew.2.2.2

end Runkite
