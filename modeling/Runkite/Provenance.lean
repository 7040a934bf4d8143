import Runkite.RunEvents
import Runkite.Trace

/-!
# Where a run's output comes from

Runners of different attempts publish events, and status reports, waiters, stream readers, the
reaper and cancellations complete runs, in any interleaving of the requests of their calls. A
completion that is applied stores what the events it replayed say and nothing else (`RunOutput`), or,
for a cancellation, at most a usage (`CancelOutput`).

A call replays before its transaction, so the invariant `CompletionCall.Sound` carries what it
took from the log to the commit. The fence of the transaction does the rest.
-/

open Json (Members Number Text marshal unmarshalMap)

namespace Runkite

/-! ## The system -/

/-- The store, the retained events of each run and the calls in flight. -/
structure Completions where
  db : Db
  log : String → List RunEvent
  calls : List CompletionCall := []

inductive CompletionEvent where
  /-- `StreamEvents` publishes an event that came with a generation. -/
  | publish (runId : String) (generation : ℤ) (e : RunEvent)
  | beginRunAttempt (ctx : Ctx) (runId : String) (generation : ℤ) (env : CallEnv)
  | call (request : CompletionRequest)
  | proceed (i : ℕ) (env : CallEnv)

namespace Completions

variable (d : Dialect)

def step : CompletionEvent → Completions → Completions
  | .publish runId generation e, s =>
    { s with log := Function.update s.log runId (s.log runId ++ [e.stamped generation]) }
  | .beginRunAttempt ctx runId generation env, s =>
    { s with db := (beginRunAttempt ctx runId generation env.now env.driver s.db).2 }
  | .call request, s => { s with calls := s.calls ++ [{ request := request }] }
  | .proceed i env, s =>
    match s.calls[i]? with
    | none => s
    | some call =>
      let next := call.request.next d env (s.log call.request.runId) s.db call.phase
      { s with db := next.2, calls := s.calls.set i { call with phase := next.1 } }

end Completions

/-! ## The specification -/

/-- The values that a completion of generation `g` takes from the events. -/
def TakesValues (g : ℤ) (events : List RunEvent) (values : Option (Members Number)) : Prop :=
  match Log.latest (RunEvent.isValues g) events with
  | none => values = none
  | some e => unmarshalMap Json.decodeNumber e.data = some values

variable {events : List RunEvent} {d : Dialect} {db : Db} {q : CompletionRequest}
  {c : RunCompletion} {output : Option Text}

/-- The completion before the replay. -/
structure CompletionRequest.Prepared (q : CompletionRequest) (c : RunCompletion) : Prop where
  runId : c.runId = q.runId
  cancel : c.cancelCurrentAttempt = q.cancelCurrentAttempt
  values : c.values = none
  usage : c.cancelUsage = none
  generation : q.cancelCurrentAttempt = false → c.generation = q.generation

/-- The completion after the replay. -/
structure CompletionRequest.Gathered (q : CompletionRequest) (c : RunCompletion)
    (replayed : List RunEvent) : Prop where
  runId : c.runId = q.runId
  cancel : c.cancelCurrentAttempt = q.cancelCurrentAttempt
  own : q.cancelCurrentAttempt = false →
    c.generation = q.generation ∧ TakesValues c.generation replayed c.values
  canceled : q.cancelCurrentAttempt = true → c.values = none ∧
    ∀ usage, c.cancelUsage = some usage → ∃ e ∈ replayed,
      RunEvent.isValues c.generation e = true ∧ decodeUsage e.data = some (some usage)

namespace CompletionPhase

variable {env : CallEnv} {log : List RunEvent} {tenantId : String} {phase : CompletionPhase}

/-- What a call relies on in a phase. -/
def Sound (q : CompletionRequest) (log : List RunEvent) : CompletionPhase → Prop
  | .replay _ c => q.Prepared c
  | .commit _ c replayed => q.Gathered c replayed ∧ replayed <+: replaySince 0 log
  | _ => True

theorem prepared_completion {g : ℤ} (h : q.cancelCurrentAttempt = false → g = q.generation) :
    q.Prepared (q.completion g) :=
  ⟨rfl, rfl, rfl, rfl, h⟩

theorem sound_afterRead (r : Run) : Sound q log (q.afterRead r) := by
  unfold CompletionRequest.afterRead
  by_cases honly : q.replayOnly
  · rw [if_pos honly]
    split_ifs <;> trivial
  rw [if_neg honly]
  by_cases hterm : (!q.status.terminal)
  · rw [if_pos hterm]
    trivial
  rw [if_neg hterm]
  by_cases hcancel : q.cancelCurrentAttempt
  · rw [if_pos hcancel]
    exact prepared_completion fun h => absurd hcancel (by simp [h])
  rw [if_neg hcancel]
  dsimp only
  split_ifs
  · exact prepared_completion fun _ => rfl
  · trivial
  · trivial

/-- The usage comes from an event of the attempt. -/
theorem of_deliveredUsage {g : ℤ} {usage : Members Number}
    (h : deliveredUsage g events = some usage) :
    ∃ e ∈ events, e.isValues g ∧ decodeUsage e.data = some (some usage) := by
  obtain ⟨e, hmem, he⟩ := List.exists_of_findSome?_eq_some h
  split_ifs at he with hvalues
  exact ⟨e, List.mem_reverse.1 hmem, hvalues, Option.join_eq_some_iff.1 he⟩

theorem gathered_values (h : q.Prepared c)
    {values : Option (Members Number)} (hcancel : c.cancelCurrentAttempt = false)
    (hvalues : TakesValues c.generation events values) :
    q.Gathered { c with values := values } events where
  runId := h.runId
  cancel := h.cancel
  own hown := ⟨h.generation hown, hvalues⟩
  canceled hown := by simp [← h.cancel, hcancel] at hown

theorem gathered_usage (h : q.Prepared c)
    {usage : Option (Members Number)} (hcancel : c.cancelCurrentAttempt)
    (husage : ∀ u, usage = some u → ∃ e ∈ events, e.isValues c.generation ∧
      decodeUsage e.data = some (some u)) :
    q.Gathered { c with cancelUsage := usage } events where
  runId := h.runId
  cancel := h.cancel
  own hown := by simp [← h.cancel, hcancel] at hown
  canceled _ := ⟨h.values, husage⟩

theorem sound_afterReplay (h : q.Prepared c) (replayError : Option StoreError) :
    Sound q log (afterReplay tenantId c replayError (replaySince 0 log)) := by
  unfold afterReplay
  split_ifs with hcancel
  · cases replayError with
    | some =>
      have hc : c = { c with cancelUsage := none } := by rw [← h.usage]
      have hgathered : q.Gathered { c with cancelUsage := none } [] :=
        gathered_usage h hcancel fun _ hu => nomatch hu
      exact ⟨hc ▸ hgathered, List.nil_prefix⟩
    | none => exact ⟨gathered_usage h hcancel fun _ => of_deliveredUsage, List.prefix_refl _⟩
  · rw [Log.find?_reverse]
    have hcancel : c.cancelCurrentAttempt = false := by simpa using hcancel
    split
    · trivial
    · rename_i hlatest
      have hc : c = { c with values := none } := by rw [← h.values]
      have hgathered : q.Gathered { c with values := none } (replaySince 0 log) :=
        gathered_values h hcancel (by simp [TakesValues, hlatest])
      exact ⟨hc ▸ hgathered, List.prefix_refl _⟩
    · rename_i event hlatest
      split
      · trivial
      · rename_i values hvalues
        exact ⟨gathered_values h hcancel (by simp [TakesValues, hlatest, hvalues]),
          List.prefix_refl _⟩

theorem sound_next (h : Sound q log phase) : Sound q log (q.next d env log db phase).1 := by
  cases phase with
  | read =>
    simp only [CompletionRequest.next]
    split
    · trivial
    · split
      · trivial
      · exact sound_afterRead _
  | replay => exact sound_afterReplay h _
  | commit =>
    simp only [CompletionRequest.next]
    split
    · trivial
    · dsimp only
      split_ifs <;> trivial
  | reread =>
    simp only [CompletionRequest.next]
    split <;> trivial
  | finalize | returned => trivial

/-- The log only grows. -/
theorem Sound.append (h : Sound q log phase) (e : RunEvent) : Sound q (log ++ [e]) phase := by
  cases phase with
  | replay => exact h
  | commit =>
    refine ⟨h.1, h.2.trans ?_⟩
    rw [replaySince, replaySince, List.filter_append]
    exact List.prefix_append _ _
  | _ => trivial

end CompletionPhase

/-! ## What the transaction stores -/

variable {ctx : Ctx} {now : String} {driver : Transaction.Driver StoreError}
  {replayed : List RunEvent}

namespace Completions

variable {s : Completions}

/-- Every call in flight is sound for the log of its run. -/
def Sound (s : Completions) : Prop :=
  ∀ call ∈ s.calls, CompletionPhase.Sound call.request (s.log call.request.runId) call.phase

theorem Sound.step (h : s.Sound) (ev : CompletionEvent) : (s.step d ev).Sound := by
  cases ev with
  | publish runId generation e =>
    intro call hcall
    by_cases hrun : call.request.runId = runId
    · subst hrun
      simpa [Completions.step] using (h call hcall).append _
    · simpa [Completions.step, Function.update_of_ne hrun] using h call hcall
  | beginRunAttempt => exact h
  | call =>
    intro call hcall
    rcases List.mem_append.1 hcall with hcall | hcall
    · exact h call hcall
    · rw [List.mem_singleton.1 hcall]
      trivial
  | proceed i env =>
    simp only [Completions.step]
    split
    · exact h
    · rename_i call hi
      intro call' hcall'
      rcases List.mem_or_eq_of_mem_set hcall' with hcall' | rfl
      · exact h call' hcall'
      · exact CompletionPhase.sound_next (h call (List.mem_of_getElem? hi))

end Completions

end Runkite
