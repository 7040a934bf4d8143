import Runkite.StepWrites

/-!
# Terminal is final

Once a completion was applied to a run, its status, output and error stay as they are until
the run is deleted (`terminal_is_final`), in every run of the world in which the rollback of a
failed create finds its run not terminal.

The rollback writes the status column directly. Where the enqueue went through and only its
acknowledgement was lost, a runner may have completed the run in the meantime, and the
rollback overwrites the result (`rollback_overwrites_result`).
-/

open Json (Members Number)

namespace Runkite

/-- The columns in which a run reports how it ended. -/
structure Run.SameOutcome (r r' : Run) : Prop where
  status : r'.status = r.status
  output : r'.output = r.output
  errorMsg : r'.errorMsg = r.errorMsg

theorem Run.SameOutcome.refl (r : Run) : r.SameOutcome r := ⟨rfl, rfl, rfl⟩

theorem Run.SameOutcome.trans {r r' r'' : Run} (h : r.SameOutcome r') (h' : r'.SameOutcome r'') :
    r.SameOutcome r'' :=
  ⟨h'.status.trans h.status, h'.output.trans h.output, h'.errorMsg.trans h.errorMsg⟩

/-- Of a terminal run, only a rollback changes the outcome. -/
theorem RowStep.sameOutcome {rolledBack : Prop} {r r' : Run} (h : RowStep rolledBack r r')
    (ht : r.status.terminal) (hrolled : ¬ rolledBack) : r.SameOutcome r' := by
  cases h with
  | same => exact .refl r
  | begun now hl hterm | completed output error now hl hterm => simp [ht] at hterm
  | failed h => exact absurd h hrolled

/-- The step commits a completion of the run : a `CompleteRun`, or the one of a
cancellation. -/
def World.appliesCompletion (srv : Server) (w : World) (ev : Event) (runId : String) : Bool :=
  let commits (ctx : Ctx) (c : RunCompletion) (env : Env) : Bool :=
    c.runId = runId && Transaction.commits (completeRunInTx srv.dialect ctx c env.now)
      CompletionResult.applied env.driver w.db
  match ev with
  | .completeRun ctx c env => commits ctx c env
  | .proceed i env =>
    match w.requests[i]? with
    | some (.cancel { runId := k, phase := .complete, ctx, rollback }) =>
      match w.db.getRun { system := true } k with
      | some run =>
        commits { tenant := run.tenantId }
          (Cancellation.completion env { ctx := ctx, runId := k, rollback := rollback } run) env
      | none => false
    | _ => false
  | _ => false

/-- A rollback that this step makes finds its run not terminal. -/
def RollbackFindsLive (ev : Event) (w : World) : Prop :=
  ∀ runId, w.rollsBack ev runId → ∀ r, w.db.runs.get? runId = some r → r.status.terminal = false

section

variable {srv : Server} {w : World} {runId : String}

theorem terminal_of_commits {ctx : Ctx} {c : RunCompletion} {env : Env} {db : Db}
    (h : Transaction.commits (completeRunInTx srv.dialect ctx c env.now) CompletionResult.applied
      env.driver db) :
    ∃ r, (completeRun srv.dialect ctx c env.now env.driver db).2.runs.get? c.runId = some r ∧
      r.status.terminal := by
  obtain ⟨hno, -⟩ | ⟨-, r, l, hr, hl, happ, hcomp⟩ :=
    completeRun_cases srv.dialect ctx env.now env.driver db c
  · simp [h] at hno
  · obtain ⟨-, ht, -, -⟩ := loaded_ok_iff.1 hl
    obtain ⟨_, _, -, -, hget⟩ := hcomp.get?_runs (by simpa using hr) ht
    rw [resolveCompletion_runId] at hget
    exact ⟨_, hget, (checkCompletion_applied.1 happ).1⟩

/-- After an applied completion the run is terminal. -/
theorem World.terminal_of_appliesCompletion {ev : Event}
    (h : w.appliesCompletion srv ev runId) :
    ∃ r, (w.step srv ev).db.runs.get? runId = some r ∧ r.status.terminal := by
  unfold World.appliesCompletion at h
  split at h
  · rename_i ctx c env
    simp only [Bool.and_eq_true, decide_eq_true_eq] at h
    obtain ⟨rfl, hc⟩ := h
    exact terminal_of_commits hc
  · rename_i i env
    split at h
    · rename_i ctx k rollback hreq
      split at h
      · rename_i run hrun
        simp only [Bool.and_eq_true, decide_eq_true_eq] at h
        obtain ⟨hk, hc⟩ := h
        have hstep : (w.step srv (.proceed i env)).db = (Cancellation.complete srv env
            { ctx := ctx, runId := k, rollback := rollback, phase := .complete } w.db).2 := by
          simp only [World.step, hreq]
          rfl
        rw [hstep, Cancellation.complete_snd _ hrun, ← hk]
        exact terminal_of_commits hc
      · cases h
    · cases h
  · cases h

/-- One step keeps the outcome of a terminal run, unless it deletes the run. -/
theorem World.step_sameOutcome {ev : Event} {r : Run} (hr : w.db.runs.get? runId = some r)
    (ht : r.status.terminal) (hlive : RollbackFindsLive ev w)
    (hkept : (w.step srv ev).db.runs.get? runId ≠ none) :
    ∃ r', (w.step srv ev).db.runs.get? runId = some r' ∧ r.SameOutcome r' := by
  obtain hnone | ⟨r', hr', hrow⟩ := (w.step_writes ev).rowStep hr
  · exact absurd hnone hkept
  · refine ⟨r', hr', hrow.sameOutcome ht fun hrolled => ?_⟩
    rw [hlive runId hrolled r hr] at ht
    cases ht

theorem World.run_sameOutcome : ∀ {evs : List Event} {w : World} {r : Run},
    w.db.runs.get? runId = some r → r.status.terminal →
    Trace.Every (World.step srv) RollbackFindsLive evs w →
    Trace.Every (World.step srv) (fun ev w => (w.step srv ev).db.runs.get? runId ≠ none) evs w →
    ∃ r', (Trace.run (World.step srv) evs w).db.runs.get? runId = some r' ∧ r.SameOutcome r'
  | [], _, r, hr, _, _, _ => ⟨r, hr, .refl r⟩
  | ev :: evs, w, r, hr, ht, ⟨hlive, hlives⟩, ⟨hkept, hkepts⟩ => by
    obtain ⟨_, hr', hsame⟩ := World.step_sameOutcome hr ht hlive hkept
    obtain ⟨r'', hr'', hsame'⟩ :=
      World.run_sameOutcome hr' (hsame.status ▸ ht) hlives hkepts
    exact ⟨r'', hr'', hsame.trans hsame'⟩

end

/-- Terminal is final : after a step that applies a completion to a run, whatever steps
follow, the run keeps its status, output and error as long as it is not deleted and no
rollback hits a terminal run. -/
theorem terminal_is_final (srv : Server) (w : World) (ev : Event) (later : List Event)
    (runId : String) (happlied : w.appliesCompletion srv ev runId = true)
    (hlive : Trace.Every (World.step srv) RollbackFindsLive later (w.step srv ev))
    (hkept : Trace.Every (World.step srv) (fun ev w => (w.step srv ev).db.runs.get? runId ≠ none)
      later (w.step srv ev)) :
    ∃ r r', (w.step srv ev).db.runs.get? runId = some r ∧ r.status.terminal = true ∧
      (Trace.run (World.step srv) later (w.step srv ev)).db.runs.get? runId = some r' ∧
      r.SameOutcome r' := by
  obtain ⟨r, hr, ht⟩ := World.terminal_of_appliesCompletion happlied
  obtain ⟨r', hr', hsame⟩ := World.run_sameOutcome hr ht hlive hkept
  exact ⟨r, r', hr, ht, hr', hsame⟩

/-- A completed run that a second completion does not change. -/
theorem terminal_is_final_completed :
    let w : World := { db := Db.single { Thread.fresh "t" with status := .busy } (Run.fresh "r" "t") }
    let ev : Event := .completeRun {} { runId := "r", generation := 0, status := .success } {}
    let later : List Event :=
      [.completeRun {} { runId := "r", generation := 0, status := .error } {}, .proceed 0 {}]
    w.appliesCompletion {} ev "r" ∧ ∃ r r', (w.step {} ev).db.runs.get? "r" = some r ∧
      r.status.terminal ∧
      (Trace.run (World.step {}) later (w.step {} ev)).db.runs.get? "r" = some r' ∧
      r.SameOutcome r' := by
  intro w ev later
  have happlied : w.appliesCompletion {} ev "r" := by decide +kernel
  refine ⟨happlied, terminal_is_final {} w ev later "r" happlied ⟨?_, ?_, trivial⟩
    (by decide +kernel)⟩
  · rintro runId ⟨i, env, c, hev, -⟩
    cases hev
  · rintro runId ⟨i, env, c, hev, hreq, -⟩
    cases hev
    simp [World.step, w, ev] at hreq

/-- A create whose enqueue goes through without its acknowledgement. The run is dispatched
and completed before the request learns that the enqueue "failed". -/
def lostAcknowledgement : List Event :=
  [.create {} { runId := "r", threadId := "t", agentId := "a" } "" "" "",
    .proceed 0 {}, .proceed 0 {}, .proceed 0 {}, .proceed 0 {}, .proceed 0 {}, .proceed 0 {},
    .proceed 0 {}, .proceed 0 { enqueue := .lost },
    .queue (.blmove "python-langgraph"),
    .queue (.promote [.runId "r", .runnerKind "python-langgraph", .generation 1] 0),
    .beginRunAttempt "r" 1 {}]

def dispatchedCompletion : Event :=
  .completeRun {} { runId := "r", generation := 1, status := .success,
                    values := some [("answer", .string "42")] } {}

/-- The rollback overwrites the result of the run : from `success` to `error`. -/
theorem rollback_overwrites_result :
    let w := Trace.run (World.step {}) lostAcknowledgement {}
    (w.redis.data.lookup "r").isSome = true ∧
    w.appliesCompletion {} dispatchedCompletion "r" = true ∧
    ((w.step {} dispatchedCompletion).db.runs.get? "r").map Run.status = some .success ∧
    (((w.step {} dispatchedCompletion).step {} (.proceed 0 {})).db.runs.get? "r").map
      (fun r => (r.status, r.errorMsg)) = some (.error, "enqueue failed") := by decide +kernel

end Runkite
