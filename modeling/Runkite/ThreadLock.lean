import Runkite.FlagLock
import Runkite.StepWrites

/-!
# The busy flag of a thread

The status `busy` of a thread is a lock that is a flag. Its holders are the create requests
that claimed the thread and have not yet inserted their run, and the runs on the thread that
are pending or running. `World.lock` reads this lock off the world, and `World.step_lock` says
that each step of the world moves it by one of the moves of `Lock.Move`.

Two conditions on a step rule out the moves that break the rules. An `Orderly` step does not
lower the flag under its holder and lets nobody intrude; a `Tidy` one does not leave the flag
up without a holder. The conditions speak of the event and of the state before it.
-/

open Transaction (Commit Driver)

namespace Runkite

open Db Table

/-! ## The two tables -/

/-- The row of the thread is busy. -/
def Db.busy (db : Db) (threadId : String) : Prop :=
  ∃ t, db.threads.get? threadId = some t ∧ t.status = .busy

/-- The run is pending or running on the thread. -/
def Db.uses (db : Db) (threadId runId : String) : Prop :=
  ∃ r, db.runs.get? runId = some r ∧ r.threadId = threadId ∧ r.status.active = true

instance (db : Db) (threadId : String) : Decidable (db.busy threadId) :=
  inferInstanceAs (Decidable (∃ t ∈ db.threads.get? threadId, t.status = .busy))

instance (db : Db) (threadId runId : String) : Decidable (db.uses threadId runId) :=
  inferInstanceAs (Decidable
    (∃ r ∈ db.runs.get? runId, r.threadId = threadId ∧ r.status.active = true))

theorem RunStatus.active_eq (s : RunStatus) : s.active = !s.terminal := by
  cases s <;> rfl

theorem RunStatus.threadStatus_ne_busy (s : RunStatus) : s.threadStatus ≠ .busy := by
  cases s <;> decide

variable {c : RunCompletion} {l : Loaded} {db db' : Db} {ctx : Ctx}
  {threadId tid runId id now : String}

theorem Db.busy_congr (h : db'.threads.get? tid = db.threads.get? tid) :
    db'.busy tid ↔ db.busy tid := by
  unfold busy
  rw [h]

theorem Db.uses_congr (h : db'.runs.get? id = db.runs.get? id) :
    db'.uses tid id ↔ db.uses tid id := by
  unfold uses
  rw [h]

variable {f : Thread → Thread} {p : Thread → Bool} {r : Request}

theorem Db.busy_updateThreads {hf} : (db.updateThreads p f hf).busy tid ↔
      ∃ t, db.threads.get? tid = some t ∧ (if p t then f t else t).status = .busy := by
  simp only [busy, get?_updateThreads, Option.map_eq_some_iff]
  constructor
  · rintro ⟨_, ⟨t, ht, rfl⟩, hbusy⟩
    exact ⟨t, ht, hbusy⟩
  · rintro ⟨t, ht, hbusy⟩
    exact ⟨_, ⟨t, ht, rfl⟩, hbusy⟩

theorem Db.tryClaimThread_fst : (db.tryClaimThread ctx threadId now).1 ↔
    ∃ t, db.threads.get? threadId = some t ∧ t.status ≠ .busy ∧ ctx.sees t.tenantId := by
  simp only [tryClaimThread, List.any_eq_true, Bool.and_eq_true, decide_eq_true_eq,
    get?_eq_some_iff]
  constructor
  · rintro ⟨t, hmem, ⟨hid, hidle⟩, hsees⟩
    exact ⟨t, ⟨hmem, hid⟩, hidle, hsees⟩
  · rintro ⟨t, ⟨hmem, hid⟩, hidle, hsees⟩
    exact ⟨t, hmem, ⟨hid, hidle⟩, hsees⟩

/-- A claim makes the thread busy if it affects its row, and does nothing else. -/
theorem Db.busy_tryClaimThread : (db.tryClaimThread ctx threadId now).2.busy tid ↔
    db.busy tid ∨ tid = threadId ∧ (db.tryClaimThread ctx threadId now).1 := by
  rw [tryClaimThread_fst, tryClaimThread, busy_updateThreads]
  constructor
  · rintro ⟨t, ht, hbusy⟩
    split_ifs at hbusy with hp
    · simp only [Bool.and_eq_true, decide_eq_true_eq, key_of_get? ht] at hp
      obtain ⟨⟨rfl, hidle⟩, hsees⟩ := hp
      exact .inr ⟨rfl, t, ht, hidle, hsees⟩
    · exact .inl ⟨t, ht, hbusy⟩
  · rintro (⟨t, ht, hbusy⟩ | ⟨rfl, t, ht, hidle, hsees⟩)
    · exact ⟨t, ht, by simp [hbusy]⟩
    · exact ⟨t, ht, by simp [key_of_get? ht, hidle, hsees]⟩

theorem Db.busy_setThreadStatus : (db.setThreadStatus ctx threadId .idle now).busy tid ↔
    ∃ t, db.threads.get? tid = some t ∧ t.status = .busy ∧
      ¬ (tid = threadId ∧ ctx.sees t.tenantId) := by
  rw [setThreadStatus, busy_updateThreads]
  refine exists_congr fun t => and_congr_right fun ht => ?_
  have hkey := key_of_get? ht
  split_ifs with hp
  all_goals
    simp only [hkey, Bool.and_eq_true, decide_eq_true_eq] at hp
    simp [hp]

theorem Db.otherActive_iff : db.otherActive threadId runId ↔
    ∃ id, id ≠ runId ∧ db.uses threadId id := by
  simp only [otherActive, List.any_eq_true, Bool.and_eq_true, decide_eq_true_eq, uses]
  constructor
  · rintro ⟨r, hr, ⟨hthread, hactive⟩, hne⟩
    exact ⟨r.runId, hne, r, mem_iff_get?.1 hr, hthread, hactive⟩
  · rintro ⟨id, hne, r, hr, hthread, hactive⟩
    obtain ⟨hmem, rfl⟩ := get?_eq_some_iff.1 hr
    exact ⟨r, hmem, ⟨hthread, hactive⟩, hne⟩

theorem Db.busy_release :
    (db.releaseThreadIfNoOtherActive ctx threadId runId .idle now).2.busy tid ↔
      ∃ t, db.threads.get? tid = some t ∧ t.status = .busy ∧
        ¬ (tid = threadId ∧ db.otherActive threadId runId = false ∧
          ctx.sees t.tenantId) := by
  rw [releaseThreadIfNoOtherActive, busy_updateThreads]
  refine exists_congr fun t => and_congr_right fun ht => ?_
  have hkey := key_of_get? ht
  by_cases htid : tid = threadId
  · subst htid
    by_cases hbusy : t.status = .busy <;> simp [hkey, hbusy]
    split_ifs <;> simp_all
  · simp [hkey, htid]

theorem Db.uses_of_insert {row : Run} {runs : Table Run String Run.runId}
    (h : db.runs.insert row = some runs) (hruns : db'.runs = runs) : db'.uses tid id ↔
      db.uses tid id ∨ id = row.runId ∧ row.threadId = tid ∧ row.status.active := by
  subst hruns
  have hfree := (rows_of_insert h).1
  unfold uses
  rw [get?_of_insert h]
  split_ifs with hid
  · subst hid
    simp [hfree]
  · simp [hid]

theorem Db.uses_updateRunStatus {errorMsg : String} :
    (db.updateRunStatus ctx runId .error none errorMsg now).uses tid id ↔
      db.uses tid id ∧ ¬ (id = runId ∧ ∃ r, db.getRun ctx runId = some r) := by
  simp only [uses, updateRunStatus, get?_updateRuns, Option.map_eq_some_iff,
    getRun_eq, Option.filter_eq_some_iff]
  constructor
  · rintro ⟨_, ⟨r, hr, rfl⟩, hthread, hactive⟩
    split_ifs at hthread hactive with hp
    · simp [RunStatus.active] at hactive
    · refine ⟨⟨r, hr, hthread, hactive⟩, ?_⟩
      rintro ⟨rfl, r', hr', hsees⟩
      cases hr.symm.trans hr'
      simp [key_of_get? hr, hsees] at hp
  · rintro ⟨⟨r, hr, hthread, hactive⟩, hno⟩
    refine ⟨_, ⟨r, hr, rfl⟩, ?_⟩
    rw [if_neg]
    · exact ⟨hthread, hactive⟩
    · intro hp
      simp only [Bool.and_eq_true, decide_eq_true_eq, key_of_get? hr] at hp
      obtain ⟨rfl, hsees⟩ := hp
      exact hno ⟨rfl, r, hr, hsees⟩

theorem Db.uses_delete {p : Run → Bool} : ({ db with runs := db.runs.delete p } : Db).uses tid id ↔
      ∃ r, db.runs.get? id = some r ∧ r.threadId = tid ∧ r.status.active ∧ p r = false := by
  simp only [uses, get?_delete, Option.filter_eq_some_iff, Bool.not_eq_true']
  constructor
  · rintro ⟨r, ⟨hr, hp⟩, hthread, hactive⟩
    exact ⟨r, hr, hthread, hactive, hp⟩
  · rintro ⟨r, hr, hthread, hactive, hp⟩
    exact ⟨r, ⟨hr, hp⟩, hthread, hactive⟩

theorem Db.uses_beginRunAttempt {generation : ℤ} {env : Env} :
    (beginRunAttempt { system := true } runId generation env.now env.driver db).2.uses tid id ↔
      db.uses tid id := by
  obtain heq | ⟨r₁, l, raw, hr₁, -, hterm, -, -, hdb⟩ :=
    beginRunAttempt_cases { system := true } env.now env.driver db runId generation
  · rw [heq]
  simp only [hdb, uses, get?_updateRuns, Option.map_eq_some_iff]
  constructor
  · rintro ⟨_, ⟨r, hr, rfl⟩, hthread, hactive⟩
    split_ifs at hthread hactive with hp
    · simp only [ownRun, Bool.and_eq_true, decide_eq_true_eq, key_of_get? hr] at hp
      obtain ⟨rfl, -⟩ := hp
      obtain rfl : r = r₁ := Option.mem_unique hr hr₁
      exact ⟨r, hr, hthread, by rw [RunStatus.active_eq, hterm]; rfl⟩
    · exact ⟨r, hr, hthread, hactive⟩
  · rintro ⟨r, hr, hthread, hactive⟩
    refine ⟨_, ⟨r, hr, rfl⟩, ?_⟩
    split_ifs
    · exact ⟨hthread, rfl⟩
    · exact ⟨hthread, hactive⟩

/-! ## A completion -/

section

variable {mid : Db} (h : Merged l c now db mid)
include h

theorem Merged.get?_threads {t : Thread} (ht : db.threads.get? tid = some t) :
    ∃ t', mid.threads.get? tid = some t' ∧ t'.tenantId = t.tenantId ∧ t'.status = t.status := by
  unfold Merged at h
  split at h
  · obtain ⟨_, _, _, _, _, -, -, -, -, rfl⟩ := h
    refine ⟨_, by rw [get?_updateThreads, ht]; rfl, ?_⟩
    dsimp only
    split_ifs <;> exact ⟨rfl, rfl⟩
  · exact ⟨t, h ▸ ht, rfl, rfl⟩

theorem Merged.busy_iff : mid.busy tid ↔ db.busy tid := by
  unfold Merged at h
  split at h
  · obtain ⟨_, _, _, _, _, -, -, -, -, rfl⟩ := h
    simp only [busy, get?_updateThreads]
    cases db.threads.get? tid with
    | none => rfl
    | some =>
      simp only [Option.map_some, Option.some.injEq, exists_eq_left']
      split_ifs <;> rfl
  · rw [h]

end

/-- What an applied completion does to the flags : of its own thread it is lowered, or
another run on the thread is active; the others stay. -/
theorem Completed.busy (h : Completed l c now db db') :
    (∀ tid, tid ≠ l.threadId → (db'.busy tid ↔ db.busy tid)) ∧
    (∀ t, db.threads.get? l.threadId = some t → t.tenantId = l.tenantId →
      ¬ db'.busy l.threadId ∨ ∃ id, id ≠ c.runId ∧ db'.uses l.threadId id) := by
  obtain ⟨rawMeta, output, mid, -, -, hmerge, -, rfl⟩ := h
  generalize hrow : mid.completeRow l c rawMeta output now = row
  have hthreads : row.threads = mid.threads := by
    rw [← hrow]
    rfl
  have hbusy : ∀ tid, row.busy tid ↔ db.busy tid := fun tid =>
    (busy_congr (by rw [hthreads])).trans hmerge.busy_iff
  unfold releaseCompleted
  split_ifs with hcount
  · constructor
    · intro tid hne
      rw [← hbusy tid, busy_updateThreads]
      refine exists_congr fun t => and_congr_right fun ht => ?_
      simp [ownThread, key_of_get? ht, hne]
    · intro t ht htenant
      left
      rw [busy_updateThreads]
      rintro ⟨t', ht', hstatus⟩
      obtain ⟨_, ht'', hten, -⟩ := hmerge.get?_threads ht
      rw [hthreads] at ht'
      cases ht'.symm.trans ht''
      have hown : ownThread l.threadId l.tenantId t' := by
        simp [ownThread, key_of_get? ht', hten, htenant]
      simp only [hown, Bool.true_and] at hstatus
      split_ifs at hstatus with hb
      · exact c.status.threadStatus_ne_busy hstatus
      · simp [hstatus] at hb
  · refine ⟨fun tid _ => hbusy tid, fun _ _ _ => .inr ?_⟩
    obtain ⟨r, hr, hp⟩ := List.countP_pos_iff.1 (Nat.pos_of_ne_zero hcount)
    simp only [Bool.and_eq_true, decide_eq_true_eq] at hp
    exact ⟨r.runId, hp.2, r, mem_iff_get?.1 hr, hp.1.1.1, hp.1.2⟩

/-- An applied completion takes its run from the active ones. -/
theorem Completed.uses {r : Run} (h : Completed l c now db db')
    (hr : db.runs.get? c.runId = some r) (ht : l.tenantId = r.tenantId)
    (hst : c.status.terminal) : db'.uses tid id ↔ db.uses tid id ∧ id ≠ c.runId := by
  by_cases hid : id = c.runId
  · subst hid
    obtain ⟨_, _, -, -, hget⟩ := h.get?_runs hr ht
    simp [uses, hget, RunStatus.active_eq, hst]
  · simp [uses_congr (h.get?_runs_of_ne hid), hid]

/-! ## Runs and requests have their thread -/

/-- The phases in which a create request relies on the row of its thread : from its claim to
its answer. -/
def Phase.attached : Phase → Bool
  | .parent _ | .siblings _ | .insert _ | .insertFallback _ | .unclaim .. | .enqueue _
  | .rollbackStatus _ | .rollbackRelease _ => true
  | _ => false

/-- The phases in which a create request holds the thread itself : it claimed it, and no run
has it instead. -/
def Phase.owns : Phase → Bool
  | .parent _ | .siblings _ | .insert _ | .insertFallback _ | .unclaim .. | .rollbackRelease _ =>
    true
  | _ => false

/-- A run has the row of its thread in its own tenant, and so has a request that claimed the
thread, as far as the tenant of the request sees. -/
structure World.Linked (w : World) : Prop where
  runs : ∀ id r, w.db.runs.get? id = some r →
    ∃ t, w.db.threads.get? r.threadId = some t ∧ t.tenantId = r.tenantId
  requests : ∀ (i : ℕ) (c : Create), w.requests[i]? = some (.create c) → c.phase.attached = true →
    ∃ t, w.db.threads.get? c.threadId = some t ∧ c.ctx.sees t.tenantId = true

variable {srv : Server} {rolledBack : String → Prop} {inserted : Ctx → NewRun → Prop} {env : Env}
  {w : World} {t : Thread}

section

variable (ht : db.threads.get? tid = some t)
include ht

theorem get?_threads_update {hf} (hkeep : ∀ t, (f t).tenantId = t.tenantId) :
    ∃ t', (db.updateThreads p f hf).threads.get? tid = some t' ∧ t'.tenantId = t.tenantId := by
  refine ⟨_, by rw [get?_updateThreads, ht]; rfl, ?_⟩
  dsimp only
  split_ifs
  · exact hkeep t
  · rfl

/-- A completion leaves the status of a thread or releases it. -/
theorem Completed.get?_threads (h : Completed l c now db db') :
    ∃ t', db'.threads.get? tid = some t' ∧ t'.tenantId = t.tenantId ∧
      (t'.status = t.status ∨ t'.status = c.status.threadStatus) := by
  obtain ⟨_, _, _, -, -, hmerge, -, rfl⟩ := h
  obtain ⟨t₁, ht₁, htenant, hstatus⟩ := hmerge.get?_threads ht
  unfold releaseCompleted
  rw [← htenant, ← hstatus]
  split_ifs
  · refine ⟨_, by rw [get?_updateThreads, completeRow, updateRuns_threads, ht₁]; rfl, ?_⟩
    dsimp only
    split_ifs
    · exact ⟨rfl, .inr rfl⟩
    · exact ⟨rfl, .inl rfl⟩
  · exact ⟨t₁, ht₁, rfl, .inl rfl⟩

theorem get?_threads_created (ctx : Ctx) (run : NewRun) (runs : Table Run String Run.runId) :
    ∃ t', (db.created ctx run true runs).threads.get? tid = some t' ∧ t'.tenantId = t.tenantId := by
  simp only [created, if_true]
  exact get?_threads_update ht fun _ => rfl

/-- No write deletes a thread or moves it to another tenant. -/
theorem Writes.get?_threads (h : Writes srv rolledBack inserted db db') :
    ∃ t', db'.threads.get? tid = some t' ∧ t'.tenantId = t.tenantId := by
  cases h with
  | unchanged | createRun | updateRunStatus | deleteRuns => exact ⟨t, ht, rfl⟩
  | insertThread hins => exact ⟨t, get?_kept_of_insert hins ht, rfl⟩
  | tryClaimThread | setThreadStatus | releaseThread => exact get?_threads_update ht fun _ => rfl
  | @createCachedRun ctx run env _ =>
    obtain ⟨e, he⟩ | ⟨pending, c, _, runs, l, -, -, -, -, -, hcomp⟩ :=
      createCachedRun_cases ctx run env.caps env.driver db srv.dialect env.now
    · rw [he]
      exact ⟨t, ht, rfl⟩
    · obtain ⟨_, ht₁, hten₁⟩ := get?_threads_created ht ctx pending runs
      obtain ⟨t', ht', hten, -⟩ := hcomp.get?_threads ht₁
      exact ⟨t', ht', hten.trans hten₁⟩
  | beginRunAttempt k generation env =>
    obtain heq | ⟨_, _, raw, -, -, -, -, -, hdb⟩ :=
      beginRunAttempt_cases { system := true } env.now env.driver db k generation
    · rw [heq]
      exact ⟨t, ht, rfl⟩
    · rw [hdb]
      exact ⟨t, ht, rfl⟩
  | completeRun ctx c env =>
    obtain ⟨-, heq⟩ | ⟨-, r, l, -, -, -, hcomp⟩ :=
      completeRun_cases srv.dialect ctx env.now env.driver db c
    · rw [heq]
      exact ⟨t, ht, rfl⟩
    · obtain ⟨t', ht', hten, -⟩ := hcomp.get?_threads ht
      exact ⟨t', ht', hten⟩

end

/-- A request that claimed its thread already had it, or claims it in this step. -/
theorem Create.next_attached {c : Create} (h : (c.next srv env db).1.phase.attached) :
    c.phase.attached ∨ (db.tryClaimThread c.ctx c.threadId env.now).1 := by
  obtain ⟨p, hp, hgoes⟩ | ⟨-, -, hp⟩ := c.next_goes srv env db
  · rw [hp] at h
    replace h : p.attached := h
    generalize c.phase = q at hgoes ⊢
    cases hgoes with
    | claimed hclaim | claimedDelegated parent hclaim => exact .inr hclaim
    | _ => first | exact .inl rfl | cases h
  · rw [hp] at h
    cases h

theorem World.Linked.step (h : w.Linked) (ev : Event) : (w.step srv ev).Linked where
  runs := by
    intro id r hr
    have hw := @World.step_writes srv w ev
    cases hold : w.db.runs.get? id with
    | none =>
      obtain ⟨ctx, _, t, -, -, hins, ht, htenant⟩ := hw.newRow hold hr
      obtain ⟨t', ht', hten⟩ := hw.get?_threads ht
      exact ⟨t', by rw [hins.threadId, ht'], by rw [hten, htenant, hins.tenantId]⟩
    | some r₀ =>
      obtain ⟨hten, hthread, -⟩ := (hw.rowStep_kept hold hr).keeps
      obtain ⟨t, ht, htenant⟩ := h.runs id r₀ hold
      obtain ⟨t', ht', hten'⟩ := hw.get?_threads ht
      exact ⟨t', by rw [hthread, ht'], by rw [hten, ← htenant, hten']⟩
  requests := by
    intro i c' hreq hattached
    have hw := @World.step_writes srv w ev
    -- the thread of a request that had one before the step is still there
    have hkept : ∀ c : Create, (∃ t, w.db.threads.get? c.threadId = some t ∧
        c.ctx.sees t.tenantId) →
        ∃ t, (w.step srv ev).db.threads.get? c.threadId = some t ∧ c.ctx.sees t.tenantId := by
      rintro c ⟨t, ht, hsees⟩
      obtain ⟨t', ht', hten⟩ := hw.get?_threads ht
      exact ⟨t', ht', hten ▸ hsees⟩
    obtain hold | ⟨ctx, req, freshThread, freshRun, now, -, rfl⟩ | ⟨env, c, rfl, hc, rfl⟩ :=
      World.step_requests hreq
    · exact hkept c' (h.requests i c' hold hattached)
    · simp [Create.arrive, Phase.attached] at hattached
    · obtain ⟨hctx, hthread, -⟩ := c.next_ids srv env w.db
      rw [hctx, hthread]
      refine hkept c ?_
      obtain hatt | hclaim := Create.next_attached hattached
      · exact h.requests i c hc hatt
      · obtain ⟨t, ht, -, hsees⟩ := tryClaimThread_fst.1 hclaim
        exact ⟨t, ht, hsees⟩

/-! ## The lock of a thread -/

/-- The request at this place holds the thread. -/
def World.owns (w : World) (threadId : String) (i : ℕ) : Prop :=
  ∃ c : Create, w.requests[i]? = some (.create c) ∧ c.threadId = threadId ∧ c.phase.owns = true

/-- The busy flag of a thread, and who holds the thread. -/
def World.lock (w : World) (threadId : String) : Lock (ℕ ⊕ String) where
  held := w.db.busy threadId
  holders := {k | Sum.elim (w.owns threadId) (w.db.uses threadId) k}

/-- The step loses no acknowledgement of a create request. If it is the status write of a
rollback, the store does not fail it, and it finds the run still pending or running on the
thread of the request. -/
def Orderly (ev : Event) (w : World) : Bool :=
  match ev with
  | .proceed i env =>
    match w.requests[i]? with
    | some (.create c) =>
      env.driver.commit.acknowledged &&
        (!c.phase.rollsBack || env.driver.clean &&
          (w.db.getRun c.ctx c.runId).any fun r => r.threadId = c.threadId && r.status.active)
    | _ => true
  | _ => true

/-- A run that is about to be deleted is not active. -/
def Db.inactive (db : Db) (ctx : Ctx) (runId : String) : Bool :=
  (db.getRun ctx runId).all fun r => !r.status.active

/-- The store fails no call of a request. A run that the step deletes is not active, a thread
that it copies was not busy when it was read, and if the step is the status write of a rollback
that finds an active run, the run is on the thread of the request. -/
def Tidy (ev : Event) (w : World) : Bool :=
  match ev with
  | .proceed i env =>
    env.driver.clean &&
      match w.requests[i]? with
      | some (.create c) =>
        !c.phase.rollsBack ||
          (w.db.getRun c.ctx c.runId).all fun r => !r.status.active || r.threadId = c.threadId
      | some (.delete { phase := .delete, ctx, runId }) => w.db.inactive ctx runId
      | some (.cancel { phase := .delete, ctx, runId, .. }) => w.db.inactive ctx runId
      | some (.copy { phase := .write t, .. }) => t.status ≠ .busy
      | _ => true
  | _ => true

/-- The step makes a move of this kind only if it is not orderly, or not tidy, where the kind
breaks a rule. -/
def Allows (ev : Event) (w : World) (k : Lock.Kind) : Prop :=
  (k = .lower ∨ k = .intrude → Orderly ev w = false) ∧ (k = .leak ∨ k = .raise → Tidy ev w = false)

/-- The step moves the lock of the thread by a move that it may make. -/
def World.Moves (srv : Server) (w : World) (ev : Event) (threadId : String) : Prop :=
  ∃ k, Lock.Move (w.lock threadId) ((w.step srv ev).lock threadId) k ∧ Allows ev w k

variable {w' : World} {ev : Event} {i j : ℕ}

@[simp] theorem inl_mem_holders : Sum.inl i ∈ (w.lock tid).holders ↔ w.owns tid i := Iff.rfl

@[simp] theorem inr_mem_holders : Sum.inr id ∈ (w.lock tid).holders ↔ w.db.uses tid id := Iff.rfl

theorem holders_eq (howns : ∀ j, w'.owns tid j ↔ w.owns tid j)
    (huses : ∀ id, w'.db.uses tid id ↔ w.db.uses tid id) :
    (w'.lock tid).holders = (w.lock tid).holders := by
  ext (j | id)
  · exact howns j
  · exact huses id

section

variable (howns : ∀ j, (w.step srv ev).owns tid j ↔ w.owns tid j)
include howns

/-- Nothing about the thread changes. -/
theorem World.Moves.of_same (hbusy : (w.step srv ev).db.busy tid ↔ w.db.busy tid)
    (huses : ∀ id, (w.step srv ev).db.uses tid id ↔ w.db.uses tid id) : w.Moves srv ev tid :=
  ⟨.stay, .stay (.inl hbusy) (holders_eq howns huses), by simp [Allows]⟩

/-- A completion releases the thread of its run. -/
theorem World.Moves.of_completeRun (hw : w.Linked) {d : Dialect} {ctx : Ctx} {env : Env}
    (hdb : (w.step srv ev).db = (completeRun d ctx c env.now env.driver w.db).2) :
    w.Moves srv ev tid := by
  obtain ⟨-, heq⟩ | ⟨-, r, l, hr, hl, happ, hcomp⟩ :=
    completeRun_cases d ctx env.now env.driver w.db c
  · rw [heq] at hdb
    exact .of_same howns (by rw [hdb]) fun id => by rw [hdb]
  rw [← hdb] at hcomp
  obtain ⟨-, hten, hthread, -⟩ := loaded_ok_iff.1 hl
  obtain ⟨hst, -, -, hterm⟩ := checkCompletion_applied.1 happ
  have huses : ∀ id, (w.step srv ev).db.uses tid id ↔ w.db.uses tid id ∧ id ≠ c.runId := by
    intro id
    simpa using hcomp.uses (by simpa using hr) hten hst
  have hactive : w.db.uses r.threadId c.runId :=
    ⟨r, hr, rfl, by rw [RunStatus.active_eq, hterm]; rfl⟩
  by_cases htid : tid = l.threadId
  · obtain ⟨t, ht, htenant⟩ := hw.runs c.runId r hr
    have hkeeps := hcomp.busy.2 t (hthread ▸ ht) (htenant.trans hten.symm)
    rw [← htid] at hkeeps
    refine ⟨.release, .release (.inr c.runId) (by rw [htid, hthread]; exact hactive) ?_ ?_,
      by simp [Allows]⟩
    · ext (j | id)
      · simp [howns j]
      · simp [huses id]
    · obtain hdown | ⟨id, -, hid⟩ := hkeeps
      · exact .inl hdown
      · exact .inr ⟨.inr id, hid⟩
  · refine .of_same howns (hcomp.busy.1 tid htid) fun id => ?_
    rw [huses id, and_iff_left_iff_imp]
    rintro ⟨r', hr', rfl, -⟩ rfl
    cases hr'.symm.trans hr
    exact htid hthread.symm

theorem World.Moves.of_insertThread {t : Thread} {threads : Table Thread String Thread.threadId}
    (hins : w.db.threads.insert t = some threads)
    (hdb : (w.step srv ev).db = { w.db with threads := threads })
    (htidy : t.status = .busy → Tidy ev w = false) : w.Moves srv ev tid := by
  have huses : ∀ id, (w.step srv ev).db.uses tid id ↔ w.db.uses tid id := fun id => by
    rw [hdb]
    rfl
  have hget := get?_of_insert hins tid
  have hthreads : (w.step srv ev).db.threads = threads := by rw [hdb]
  by_cases hnew : tid = t.threadId ∧ t.status = .busy
  · obtain ⟨rfl, hbusy⟩ := hnew
    rw [if_pos rfl] at hget
    exact ⟨.raise, .raise ⟨t, by rw [hthreads, hget], hbusy⟩ (holders_eq howns huses),
      by simp [Allows, htidy hbusy]⟩
  · refine .of_same howns ?_ huses
    simp only [busy, hthreads, hget]
    split_ifs with htid
    · subst htid
      simp only [true_and] at hnew
      simp [hnew, (rows_of_insert hins).1]
    · rfl

/-- The deletion of an active run leaves the flag without a holder. -/
theorem World.Moves.of_deleteRun {ctx : Ctx} {runId : String}
    (hdb : (w.step srv ev).db = w.db.deleteRun ctx runId)
    (htidy : w.db.inactive ctx runId = false → Tidy ev w = false) : w.Moves srv ev tid := by
  have hbusy : (w.step srv ev).db.busy tid ↔ w.db.busy tid := by
    rw [hdb]
    rfl
  have hsub : ∀ id, (w.step srv ev).db.uses tid id → w.db.uses tid id := by
    intro id h
    rw [hdb] at h
    obtain ⟨r, hr, hthread, hactive, -⟩ := uses_delete.1 h
    exact ⟨r, hr, hthread, hactive⟩
  cases hin : w.db.inactive ctx runId with
  | false =>
    refine ⟨.leak, .leak hbusy ?_, by simp [Allows, htidy hin]⟩
    rintro (j | id) h
    · exact (howns j).1 h
    · exact hsub id h
  | true =>
    refine .of_same howns hbusy fun id => ⟨hsub id, ?_⟩
    rintro ⟨r, hr, hthread, hactive⟩
    rw [hdb]
    refine uses_delete.2 ⟨r, hr, hthread, hactive, ?_⟩
    -- a row that the statement deletes would be the one that is not active
    by_contra hp
    simp only [Bool.not_eq_false, Bool.and_eq_true, decide_eq_true_eq, key_of_get? hr] at hp
    obtain ⟨rfl, hsees⟩ := hp
    simp [inactive, getRun_eq, hr, hsees, hactive] at hin

end

theorem owns_accept (h : ∀ c, r = .create c → c.phase.owns = false) (j : ℕ) :
    (w.accept r).owns tid j ↔ w.owns tid j := by
  unfold World.owns World.accept
  refine exists_congr fun c => and_congr_left fun hc => ?_
  rw [List.getElem?_append]
  split_ifs with hj
  · rfl
  · rw [List.getElem?_eq_none (Nat.le_of_not_lt hj)]
    constructor
    · intro hr
      have := h c (List.mem_singleton.1 (List.mem_of_getElem? hr)).symm
      simp [hc.2] at this
    · simp

theorem owns_set {r r' : Request} (hr : w.requests[i]? = some r)
    (hset : w'.requests = w.requests.set i r') (j : ℕ) : w'.owns tid j ↔
      if j = i then ∃ c, r' = .create c ∧ c.threadId = tid ∧ c.phase.owns
      else w.owns tid j := by
  have hi : i < w.requests.length := (List.getElem?_eq_some_iff.1 hr).1
  unfold World.owns
  rw [hset]
  split_ifs with hj
  · subst hj
    simp [hi]
  · simp [List.getElem?_set_ne (Ne.symm hj)]

/-- A step of a request that is not a create request. -/
theorem owns_proceed {env : Env} (hr : w.requests[i]? = some r) (h : ∀ c, r ≠ .create c) (j : ℕ) :
    (w.step srv (.proceed i env)).owns tid j ↔ w.owns tid j := by
  have hset : (w.step srv (.proceed i env)).requests = w.requests.set i (r.next srv env w.db).1 := by
    simp [World.step, hr]
  rw [owns_set hr hset]
  split_ifs with hj
  · subst hj
    have hno : ∀ c, (r.next srv env w.db).1 ≠ .create c := by
      cases r with
      | create c => exact absurd rfl (h c)
      | delete | cancel | copy => simp [Request.next]
    constructor
    · rintro ⟨c, hc, -⟩
      exact absurd hc (hno c)
    · rintro ⟨c, hc, -⟩
      rw [hr] at hc
      exact absurd (Option.some.inj hc) (h c)
  · rfl

end Runkite
