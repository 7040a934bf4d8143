import Runkite.RunsApi

/-!
# What a step does to the database

`Writes` lists the writes of the store that a step of the world can make, and
`World.step_writes` says that each step makes one of them, or none. A run is marked as failed
only by the rollback of the request that created it (`World.rollsBack`). Properties of the
tables are proved once for each write.
-/

open Json (Members Number Text marshal)
open Transaction (Body transact)

namespace Runkite

open Create

/-! ## Calls -/

variable {α : Type} {srv : Server} {rolledBack : String → Prop} {inserted : Ctx → NewRun → Prop}
  {env : Env} {c : Create} {db : Db}

theorem Env.query_ok {f : Db → Except StoreError α} {a : α} (h : env.query f db = .ok a) :
    f db = .ok a :=
  Transaction.query_ok h

theorem getRun_of_fetchRun {ctx : Ctx} {runId : String} {r : Run}
    (h : fetchRun ctx runId db = .ok r) : db.getRun ctx runId = some r := by
  unfold fetchRun at h
  split at h
  · rename_i hget
    rw [hget, Except.ok.inj h]
  · cases h

theorem Env.write_cases (env : Env) (f : Db → Except StoreError (α × Db)) (db : Db) :
    (∃ e, env.write f db = (.error e, db)) ∨
    ∃ a db', f db = .ok (a, db') ∧ (env.write f db = (.ok a, db') ∨
      ∃ e, env.driver.commit = .unacknowledged e ∧ env.write f db = (.error e, db')) :=
  Transaction.write_cases env.driver f db

/-- The database after a write that cannot fail by itself : as it was, or as the write
leaves it. -/
theorem Env.write_total (env : Env) (f : Db → α × Db) (db : Db) :
    (env.write (fun db => .ok (f db)) db).2 = db ∨
      (env.write (fun db => .ok (f db)) db).2 = (f db).2 :=
  Transaction.write_total env.driver f db

theorem Env.write_insertThread (env : Env) (t : Thread) (db : Db) :
    (env.write (insertThread t) db).2 = db ∨ ∃ threads, db.threads.insert t = some threads ∧
      (env.write (insertThread t) db).2 = { db with threads := threads } := by
  obtain hsame | ⟨a, db', hf, heq⟩ := Transaction.write_state env.driver (insertThread t) db
  · exact .inl hsame
  · unfold insertThread at hf
    split at hf
    · rename_i threads hins
      obtain ⟨-, rfl⟩ := Prod.mk.inj (Except.ok.inj hf)
      exact .inr ⟨threads, hins, heq⟩
    · cases hf

theorem Env.write_removeRun (env : Env) (ctx : Ctx) (runId : String) (db : Db) :
    (env.write (removeRun ctx runId) db).2 = db ∨
      (env.write (removeRun ctx runId) db).2 = db.deleteRun ctx runId := by
  obtain hsame | ⟨a, db', hf, heq⟩ := Transaction.write_state env.driver (removeRun ctx runId) db
  · exact .inl hsame
  · unfold removeRun at hf
    split at hf
    · obtain ⟨-, rfl⟩ := Prod.mk.inj (Except.ok.inj hf)
      exact .inr heq
    · cases hf

/-- A write that cannot fail by itself, through a driver that lets everything through. -/
theorem Env.write_clean (h : env.driver.clean) (f : Db → α × Db) :
    env.write (fun db => .ok (f db)) db = (.ok (f db).1, (f db).2) := by
  unfold Env.write transact
  simp only [Transaction.Driver.clean, Bool.and_eq_true, Option.isNone_iff_eq_none] at h
  obtain ⟨⟨hrefused, hfaults⟩, hcommit⟩ := h
  have hhead : env.driver.faults.head?.join = none := by
    cases hf : env.driver.faults with
    | nil => rfl
    | cons =>
      simp only [hf, List.all_cons, Bool.and_eq_true, Option.isNone_iff_eq_none] at hfaults
      simp [hfaults.1]
  simp only [hrefused, Body.run, hhead, if_true]
  split at hcommit
  · rename_i hdone
    rw [hdone]
  · cases hcommit

/-- The writes of the store that a step of the world can make, where `rolledBack` are the runs
that it may mark as failed, and `inserted` the ones that it may insert. -/
inductive Writes (srv : Server) (rolledBack : String → Prop) (inserted : Ctx → NewRun → Prop)
    (db : Db) : Db → Prop where
  | unchanged : Writes srv rolledBack inserted db db
  | insertThread {t : Thread} {threads : Table Thread String Thread.threadId}
    (h : db.threads.insert t = some threads) :
    Writes srv rolledBack inserted db { db with threads := threads }
  | tryClaimThread (ctx : Ctx) (threadId now : String) :
    Writes srv rolledBack inserted db (db.tryClaimThread ctx threadId now).2
  | setThreadStatus (ctx : Ctx) (threadId now : String) :
    Writes srv rolledBack inserted db (db.setThreadStatus ctx threadId .idle now)
  | releaseThread (ctx : Ctx) (threadId runId now : String) :
    Writes srv rolledBack inserted db (db.releaseThreadIfNoOtherActive ctx threadId runId .idle now).2
  | createRun {ctx : Ctx} {run : NewRun} {t : Thread} {runs : Table Run String Run.runId}
    (hrun : inserted ctx run) (ht : db.threads.select (ownThread run.threadId ctx.tenant) = some t)
    (h : db.runs.insert (run.row ctx.tenant) = some runs) :
    Writes srv rolledBack inserted db { db with runs := runs }
  | createCachedRun {ctx : Ctx} {run : NewRun} (env : Env) (hrun : inserted ctx run) :
    Writes srv rolledBack inserted db
      (createCachedRun srv.dialect ctx run env.caps env.now env.driver db).2
  | beginRunAttempt (runId : String) (generation : ℤ) (env : Env) :
    Writes srv rolledBack inserted db
      (beginRunAttempt { system := true } runId generation env.now env.driver db).2
  | completeRun (ctx : Ctx) (c : RunCompletion) (env : Env) :
    Writes srv rolledBack inserted db (completeRun srv.dialect ctx c env.now env.driver db).2
  | updateRunStatus (ctx : Ctx) {runId : String} (now : String) (h : rolledBack runId) :
    Writes srv rolledBack inserted db (db.updateRunStatus ctx runId .error none "enqueue failed" now)
  | deleteRuns (p : Run → Bool) : Writes srv rolledBack inserted db { db with runs := db.runs.delete p }

@[simp] theorem Create.transition_snd (c : Create) (retried : Bool) (again next : Phase)
    (r : Except StoreError Unit × Db) : (c.transition retried again next r).2 = r.2 := by
  obtain ⟨_ | _, _⟩ := r <;> rfl

/-- What a create request does to the database in one step : nothing, or the write of its phase. -/
inductive Create.Stores (srv : Server) (env : Env) (c : Create) (db : Db) : Phase → Db → Prop where
  | unchanged {p : Phase} : Stores srv env c db p db
  | createThread {threads : Table Thread String Thread.threadId}
    (h : db.threads.insert c.newThread = some threads) :
    Stores srv env c db .createThread { db with threads := threads }
  | cached (output : Text) : Stores srv env c db .cached
    (createCachedRun srv.dialect c.ctx (c.cachedRun env output) env.caps env.now env.driver db).2
  | claim : Stores srv env c db .claim (db.tryClaimThread c.ctx c.threadId env.now).2
  | insert {parent : Option Run} {t : Thread} {runs : Table Run String Run.runId}
    (ht : db.threads.select (ownThread c.threadId c.ctx.tenant) = some t)
    (h : db.runs.insert ((c.newRun env parent).row c.ctx.tenant) = some runs) :
    Stores srv env c db (.insert parent) { db with runs := runs }
  | unclaim {retried : Bool} {response : Response} : Stores srv env c db (.unclaim retried response)
    (db.setThreadStatus c.ctx c.threadId .idle env.now)
  | rollbackStatus {retried : Bool} : Stores srv env c db (.rollbackStatus retried)
    (db.updateRunStatus c.ctx c.runId .error none "enqueue failed" env.now)
  | rollbackRelease {retried : Bool} : Stores srv env c db (.rollbackRelease retried)
    (db.releaseThreadIfNoOtherActive c.ctx c.threadId c.runId .idle env.now).2

/-- A write of the phase, if it takes effect. -/
theorem Create.Stores.write {α : Type} {c : Create} {p : Phase} (f : Db → α × Db)
    (h : c.Stores srv env db p (f db).2) :
    c.Stores srv env db p (env.write (fun db => .ok (f db)) db).2 := by
  obtain heq | heq := env.write_total f db
  · rw [heq]
    exact .unchanged
  · rwa [heq]

theorem Create.next_stores (srv : Server) (env : Env) (c : Create) (db : Db) :
    c.Stores srv env db c.phase (c.next srv env db).2 := by
  unfold next
  cases hphase : c.phase with
  | createThread =>
    have hw : c.Stores srv env db .createThread (env.write (insertThread c.newThread) db).2 := by
      obtain heq | ⟨threads, hins, heq⟩ := env.write_insertThread c.newThread db
      · rw [heq]
        exact .unchanged
      · rw [heq]
        exact .createThread hins
    simp only
    split <;> rename_i heq <;> rwa [heq] at hw
  | cached =>
    simp only [tryServeCached]
    split
    · rename_i output _ _
      have hw : c.Stores srv env db .cached (Runkite.createCachedRun srv.dialect c.ctx
        (c.cachedRun env output) env.caps env.now env.driver db).2 := .cached output
      split <;> rename_i heq <;> rwa [heq] at hw
    · exact .unchanged
  | claim =>
    have hw : c.Stores srv env db .claim
      (env.write (fun db => .ok (db.tryClaimThread c.ctx c.threadId env.now)) db).2 := .write _ .claim
    simp only [tryClaim]
    split <;> rename_i heq <;> rw [heq] at hw
    · exact hw
    · exact hw
    · split <;> exact hw
  | insert parent =>
    have hw : c.Stores srv env db (.insert parent)
        (createRunAdmitted c.ctx (c.newRun env parent) env.caps env.driver db).2 := by
      obtain ⟨e, he⟩ | ⟨t, runs, ht, hins, heq | ⟨e, -, heq⟩⟩ :=
        createRunAdmitted_cases c.ctx (c.newRun env parent) env.caps env.driver db
      · rw [he]
        exact .unchanged
      · rw [heq]
        exact .insert ht hins
      · rw [heq]
        exact .insert ht hins
    simp only
    split <;> rename_i heq <;> rwa [heq] at hw
  | unclaim =>
    simp only [transition_snd]
    exact .write _ .unclaim
  | rollbackStatus =>
    simp only [transition_snd]
    exact .write _ .rollbackStatus
  | rollbackRelease =>
    simp only [transition_snd]
    exact .write (fun db => ((),
      (db.releaseThreadIfNoOtherActive c.ctx c.threadId c.runId .idle env.now).2)) .rollbackRelease
  | _ =>
    -- the other phases only read
    dsimp only
    repeat' split
    all_goals exact .unchanged

/-- The phase in which a create request writes the status of its run. -/
def Phase.rollsBack : Phase → Bool
  | .rollbackStatus _ => true
  | _ => false

/-- The run that the request inserts in this step, if it comes to it. -/
def Create.inserts (env : Env) (c : Create) (ctx : Ctx) (run : NewRun) : Prop :=
  ctx = c.ctx ∧ ((∃ parent, c.phase = .insert parent ∧ run = c.newRun env parent) ∨
    c.phase = .cached ∧ ∃ output, run = c.cachedRun env output)

theorem Create.next_writes (c : Create) (h : c.phase.rollsBack → rolledBack c.runId)
    (hins : ∀ ctx run, c.inserts env ctx run → inserted ctx run) :
    Writes srv rolledBack inserted db (c.next srv env db).2 := by
  have hstores := c.next_stores srv env db
  generalize hphase : c.phase = p at hstores
  generalize (c.next srv env db).2 = db' at hstores
  cases hstores with
  | unchanged => exact .unchanged
  | createThread hthread => exact .insertThread hthread
  | cached output => exact .createCachedRun env (hins _ _ ⟨rfl, .inr ⟨hphase, output, rfl⟩⟩)
  | claim => exact .tryClaimThread c.ctx c.threadId env.now
  | insert ht hrow => exact .createRun (hins _ _ ⟨rfl, .inl ⟨_, hphase, rfl⟩⟩) ht hrow
  | unclaim => exact .setThreadStatus c.ctx c.threadId env.now
  | rollbackStatus => exact .updateRunStatus c.ctx env.now (h (by rw [hphase]; rfl))
  | rollbackRelease => exact .releaseThread c.ctx c.threadId c.runId env.now

theorem Deletion.next_snd (env : Env) (db : Db) (d : Deletion) : (d.next env db).2 = db ∨
    d.phase = .delete ∧ (d.next env db).2 = db.deleteRun d.ctx d.runId := by
  unfold Deletion.next
  cases hphase : d.phase with
  | check =>
    simp only
    split
    · exact .inl rfl
    · split_ifs <;> exact .inl rfl
  | delete =>
    have hw := env.write_removeRun d.ctx d.runId db
    simp only
    split <;> rename_i heq <;> rw [heq] at hw <;> exact hw.imp id fun h => ⟨trivial, h⟩
  | done => exact .inl rfl

theorem Deletion.next_writes (d : Deletion) : Writes srv rolledBack inserted db (d.next env db).2 := by
  obtain heq | ⟨-, heq⟩ := d.next_snd env db
  · rw [heq]
    exact .unchanged
  · rw [heq]
    exact .deleteRuns _

theorem Cancellation.complete_snd (c : Cancellation) {run : Run}
    (h : db.getRun { system := true } c.runId = some run) :
    (c.complete srv env db).2 = (completeRun srv.dialect { tenant := run.tenantId }
      (c.completion env run) env.now env.driver db).2 := by
  simp only [Cancellation.complete, h]
  split
  · rename_i heq
    rw [heq]
  · rename_i heq
    rw [heq]
    split <;> rfl

theorem Cancellation.next_snd (srv : Server) (env : Env) (db : Db) (c : Cancellation) :
    (c.next srv env db).2 = db ∨
    (c.phase = .complete ∧ ∃ run, db.getRun { system := true } c.runId = some run ∧
      (c.next srv env db).2 = (completeRun srv.dialect { tenant := run.tenantId }
        (c.completion env run) env.now env.driver db).2) ∨
    c.phase = .delete ∧ (c.next srv env db).2 = db.deleteRun c.ctx c.runId := by
  unfold Cancellation.next
  cases hphase : c.phase with
  | load | recheck =>
    simp only
    split
    · exact .inl rfl
    · split_ifs <;> exact .inl rfl
  | complete =>
    cases h : db.getRun { system := true } c.runId with
    | none =>
      left
      simp [Cancellation.complete, h]
    | some run => exact .inr (.inl ⟨rfl, run, rfl, c.complete_snd h⟩)
  | queueCancel => simp only; split <;> exact .inl rfl
  | delete =>
    have hw := env.write_removeRun c.ctx c.runId db
    simp only
    split <;> rename_i heq <;> rw [heq] at hw <;> exact hw.imp id fun h => .inr ⟨trivial, h⟩
  | done => exact .inl rfl

theorem Cancellation.next_writes (c : Cancellation) :
    Writes srv rolledBack inserted db (c.next srv env db).2 := by
  obtain heq | ⟨-, run, -, heq⟩ | ⟨-, heq⟩ := c.next_snd srv env db
  · rw [heq]
    exact .unchanged
  · rw [heq]
    exact .completeRun _ _ env
  · rw [heq]
    exact .deleteRuns _

theorem Copy.next_snd (env : Env) (db : Db) (c : Copy) : (c.next env db).2 = db ∨
    ∃ t threads, c.phase = .write t ∧ db.threads.insert t = some threads ∧
      (c.next env db).2 = { db with threads := threads } := by
  unfold Copy.next
  cases hphase : c.phase with
  | read => simp only; split <;> exact .inl rfl
  | write t =>
    have hw := env.write_insertThread t db
    simp only
    split <;> rename_i heq <;> rw [heq] at hw <;>
      exact hw.imp id fun ⟨threads, hins, h⟩ => ⟨t, threads, rfl, hins, h⟩
  | done => exact .inl rfl

theorem Copy.next_writes (c : Copy) : Writes srv rolledBack inserted db (c.next env db).2 := by
  obtain heq | ⟨t, threads, -, hins, heq⟩ := c.next_snd env db
  · rw [heq]
    exact .unchanged
  · rw [heq]
    exact .insertThread hins

/-- The step marks the run as failed because it could not be enqueued. -/
def World.rollsBack (w : World) (ev : Event) (runId : String) : Prop :=
  ∃ i env c, ev = .proceed i env ∧ w.requests[i]? = some (.create c) ∧
    c.phase.rollsBack = true ∧ c.runId = runId

/-- The run that the step inserts, if it comes to it. -/
def World.inserts (w : World) (ev : Event) (ctx : Ctx) (run : NewRun) : Prop :=
  ∃ i env c, ev = .proceed i env ∧ w.requests[i]? = some (.create c) ∧ c.inserts env ctx run

/-- What a step of the world does to the database. -/
theorem World.step_writes (w : World) (ev : Event) :
    Writes srv (w.rollsBack ev) (w.inserts ev) w.db (w.step srv ev).db := by
  cases ev with
  | create | delete | cancel | copy | queue => exact .unchanged
  | proceed i env =>
    simp only [World.step]
    split
    · exact .unchanged
    · rename_i r hr
      cases r with
      | create c =>
        exact c.next_writes (fun hphase => ⟨i, env, c, rfl, hr, hphase, rfl⟩)
          fun ctx run hins => ⟨i, env, c, rfl, hr, hins⟩
      | delete d => exact d.next_writes
      | cancel c | copy c => exact c.next_writes
  | beginRunAttempt runId generation env => exact .beginRunAttempt runId generation env
  | completeRun ctx c env => exact .completeRun ctx c env
  | pruneRuns => exact .deleteRuns _

/-- The request that arrives with an event. -/
def Event.arrival : Event → Option Request
  | .create ctx req freshThread freshRun now =>
    some (.create (.arrive ctx req freshThread freshRun now))
  | .delete ctx runId => some (.delete { ctx := ctx, runId := runId })
  | .cancel ctx runId rollback => some (.cancel { ctx := ctx, runId := runId, rollback := rollback })
  | .copy ctx threadId newId => some (.copy { ctx := ctx, threadId := threadId, newId := newId })
  | _ => none

theorem World.request_step {w : World} {ev : Event} {j : ℕ} {r' : Request}
    (h : (w.step srv ev).requests[j]? = some r') : w.requests[j]? = some r' ∨
    (w.requests.length ≤ j ∧ ev.arrival = some r') ∨
    ∃ env r, ev = .proceed j env ∧ w.requests[j]? = some r ∧ r' = (r.next srv env w.db).1 := by
  have haccept : ∀ {r : Request}, (w.accept r).requests[j]? = some r' →
      w.requests[j]? = some r' ∨ w.requests.length ≤ j ∧ some r = some r' := by
    intro r hr
    rw [World.accept, List.getElem?_append] at hr
    split_ifs at hr with hj
    · exact .inl hr
    · exact .inr ⟨not_lt.1 hj, congrArg some (List.mem_singleton.1 (List.mem_of_getElem? hr)).symm⟩
  cases ev with
  | create | delete | cancel | copy => exact (haccept h).imp_right .inl
  | proceed i env =>
    simp only [World.step] at h
    split at h
    · exact .inl h
    · rename_i r hr
      rw [List.getElem?_set] at h
      split_ifs at h with hij
      · subst hij
        exact .inr (.inr ⟨env, r, rfl, hr, (Option.some.inj h).symm⟩)
      · exact .inl h
  | beginRunAttempt | completeRun | queue | pruneRuns => exact .inl h

/-- The same of a create request. -/
theorem World.step_requests {w : World} {ev : Event} {j : ℕ} {c' : Create}
    (h : (w.step srv ev).requests[j]? = some (.create c')) : w.requests[j]? = some (.create c') ∨
    (∃ ctx req freshThread freshRun now, ev = .create ctx req freshThread freshRun now ∧
      c' = .arrive ctx req freshThread freshRun now) ∨
    ∃ env c, ev = .proceed j env ∧ w.requests[j]? = some (.create c) ∧
      c' = (c.next srv env w.db).1 := by
  obtain hsame | ⟨-, harrival⟩ | ⟨env, r, hev, hr, hnext⟩ := World.request_step h
  · exact .inl hsame
  · cases ev with
    | create ctx req freshThread freshRun now =>
      cases harrival
      exact .inr (.inl ⟨ctx, req, freshThread, freshRun, now, rfl, rfl⟩)
    | _ => cases harrival
  · cases r with
    | create c =>
      simp only [Request.next, Prod.map, Request.create.injEq] at hnext
      exact .inr (.inr ⟨env, c, hev, hr, hnext⟩)
    | delete | cancel | copy => simp [Request.next] at hnext

/-! ## Phases of a create request -/

/-- From which phase to which a create request goes in one step, and on what condition, where
later arguments use it. -/
inductive Create.Goes (srv : Server) (env : Env) (c : Create) (db : Db) : Phase → Phase → Prop where
  | found {r : Response} (h : findRunForRetry srv env c.ctx c.req c.req.threadId db = some r) :
    Goes srv env c db .arrived (.done r)
  | notFound : Goes srv env c db .arrived .resolve
  | refused (e : StoreError) : Goes srv env c db .resolve (.done (.error e))
  | hasThread : Goes srv env c db .ensureThread .cached
  | missesThread : Goes srv env c db .ensureThread .createThread
  | requiresThread (e : StoreError) : Goes srv env c db .ensureThread (.done (.error e))
  | createdThread : Goes srv env c db .createThread .cached
  | notCreatedThread (e : StoreError) : Goes srv env c db .createThread (.regetThread e)
  | otherCreatedThread (e : StoreError) : Goes srv env c db (.regetThread e) .cached
  | withoutThread (e : StoreError) : Goes srv env c db (.regetThread e) (.done (.error e))
  | notCached : Goes srv env c db .cached .claim
  | servedCached : Goes srv env c db .cached .cachedReload
  | notServedCached (e : StoreError) : Goes srv env c db .cached (.cachedFallback e)
  | reloaded {run : Run} (h : db.getRun c.ctx c.runId = some run) :
    Goes srv env c db .cachedReload (.done (.existing run))
  | notReloaded (e : StoreError) : Goes srv env c db .cachedReload (.done (.error e))
  | foundCached {e : StoreError} {r : Response}
    (h : findRunForRetry srv env c.ctx c.req c.threadId db = some r) :
    Goes srv env c db (.cachedFallback e) (.done r)
  | notFoundCached (e : StoreError) : Goes srv env c db (.cachedFallback e) (.done (.error e))
  | notClaimed (e : StoreError) : Goes srv env c db .claim (.done (.error e))
  | busy : Goes srv env c db .claim .busyFallback
  | claimed (h : (db.tryClaimThread c.ctx c.threadId env.now).1 = true) :
    Goes srv env c db .claim (.insert none)
  | claimedDelegated (parent : String) (h : (db.tryClaimThread c.ctx c.threadId env.now).1 = true) :
    Goes srv env c db .claim (.parent parent)
  | foundBusy {r : Response} (h : c.raceFallback srv env db = some r) :
    Goes srv env c db .busyFallback (.done r)
  | notFoundBusy (e : StoreError) : Goes srv env c db .busyFallback (.done (.error e))
  | parentFound {runId : String} (parent : Run) : Goes srv env c db (.parent runId) (.siblings parent)
  | parentRefused {runId : String} (e : StoreError) :
    Goes srv env c db (.parent runId) (.unclaim false (.error e))
  | siblingsCounted {parent : Run} : Goes srv env c db (.siblings parent) (.insert (some parent))
  | siblingsRefused {parent : Run} (e : StoreError) :
    Goes srv env c db (.siblings parent) (.unclaim false (.error e))
  | inserted {parent : Option Run}
    (h : ∃ r, (createRunAdmitted c.ctx (c.newRun env parent) env.caps env.driver db).2.runs.get?
      c.runId = some r) : Goes srv env c db (.insert parent) (.enqueue (c.newRun env parent))
  | notInserted {parent : Option Run} (e : StoreError) :
    Goes srv env c db (.insert parent) (.insertFallback e)
  | foundInserted {e : StoreError} {r : Response} (h : c.raceFallback srv env db = some r) :
    Goes srv env c db (.insertFallback e) (.unclaim false r)
  | notFoundInserted (e : StoreError) :
    Goes srv env c db (.insertFallback e) (.unclaim false (.error e))
  | unclaimAgain {r : Response} : Goes srv env c db (.unclaim false r) (.unclaim true r)
  | unclaimed {retried : Bool} {r : Response} : Goes srv env c db (.unclaim retried r) (.done r)
  | enqueued {run : NewRun} : Goes srv env c db (.enqueue run) (.done (.created run))
  | notEnqueued {run : NewRun} : Goes srv env c db (.enqueue run) (.rollbackStatus false)
  | statusAgain : Goes srv env c db (.rollbackStatus false) (.rollbackStatus true)
  | statusWritten {retried : Bool} : Goes srv env c db (.rollbackStatus retried) (.rollbackRelease false)
  | releaseAgain : Goes srv env c db (.rollbackRelease false) (.rollbackRelease true)
  | released {retried : Bool} (e : StoreError) :
    Goes srv env c db (.rollbackRelease retried) (.done (.error e))
  | answered {r : Response} : Goes srv env c db (.done r) (.done r)

theorem Create.transition_goes {retried : Bool} {again next : Phase} {q : Bool → Phase}
    (r : Except StoreError Unit × Db) (hagain : Create.Goes srv env c db (q false) again)
    (hnext : ∀ retried, Create.Goes srv env c db (q retried) next) :
    ∃ p, (c.transition retried again next r).1 = c.goto p ∧ Create.Goes srv env c db (q retried) p := by
  obtain ⟨e | u, _⟩ := r
  · cases retried with
    | false => exact ⟨again, rfl, hagain⟩
    | true => exact ⟨next, rfl, hnext true⟩
  · exact ⟨next, rfl, hnext retried⟩

theorem Create.tryClaim_goes : ∃ p, (c.tryClaim env db).1 = c.goto p ∧
    Create.Goes srv env c db .claim p := by
  unfold tryClaim
  obtain ⟨e, he⟩ | ⟨a, _, hf, hok | ⟨e, -, he⟩⟩ :=
    env.write_cases (fun db => .ok (db.tryClaimThread c.ctx c.threadId env.now)) db
  · rw [he]
    exact ⟨_, rfl, .notClaimed e⟩
  · rw [hok]
    cases a with
    | false => exact ⟨_, rfl, .busy⟩
    | true =>
      have hclaimed : (db.tryClaimThread c.ctx c.threadId env.now).1 := by rw [Except.ok.inj hf]
      cases hparent : c.req.parentRunId with
      | none => exact ⟨_, rfl, .claimed hclaimed⟩
      | some parent => exact ⟨_, rfl, .claimedDelegated parent hclaimed⟩
  · rw [he]
    exact ⟨_, rfl, .notClaimed e⟩

theorem Create.insert_goes (parent : Option Run) (hphase : c.phase = .insert parent) :
    ∃ p, (c.next srv env db).1 = c.goto p ∧ Create.Goes srv env c db (.insert parent) p := by
  simp only [next, hphase]
  obtain ⟨e, he⟩ | ⟨t, _, _, hins, hok | ⟨e, -, he⟩⟩ :=
    createRunAdmitted_cases c.ctx (c.newRun env parent) env.caps env.driver db
  · rw [he]
    exact ⟨_, rfl, .notInserted e⟩
  · refine ⟨.enqueue (c.newRun env parent), by rw [hok], .inserted ?_⟩
    rw [hok]
    exact ⟨_, (Table.get?_of_insert hins c.runId).trans (if_pos rfl)⟩
  · rw [he]
    exact ⟨_, rfl, .notInserted e⟩

/-- A step of a create request goes from phase to phase, except where it rewrites the
request. -/
theorem Create.next_goes (srv : Server) (env : Env) (c : Create) (db : Db) :
    (∃ p, (c.next srv env db).1 = c.goto p ∧ Create.Goes srv env c db c.phase p) ∨
    c.phase = .resolve ∧ env.refusal = none ∧ (c.next srv env db).1 = { c with
      req := { c.req with agentId := (srv.route env.rand env.sums c.ctx.tenant c.req.agent).1 }
      requestedAlias := (srv.route env.rand env.sums c.ctx.tenant c.req.agent).2
      phase := .ensureThread } := by
  cases hphase : c.phase
  case insert parent => exact .inl (insert_goes parent hphase)
  case done response =>
    have hnext : c.next srv env db = (c, db) := by simp [next, hphase]
    exact .inl ⟨c.phase, by rw [hnext]; rfl, by rw [hphase]; exact .answered⟩
  all_goals simp only [next, hphase]
  case resolve =>
    simp only [resolve]
    cases env.refusal with
    | some e => exact .inl ⟨_, rfl, .refused e⟩
    | none => exact .inr ⟨trivial, rfl, rfl⟩
  all_goals left
  case arrived =>
    cases h : findRunForRetry srv env c.ctx c.req c.req.threadId db with
    | some => exact ⟨_, rfl, .found h⟩
    | none => exact ⟨_, rfl, .notFound⟩
  case ensureThread =>
    split
    · exact ⟨_, rfl, .hasThread⟩
    · split_ifs
      · exact ⟨_, rfl, .requiresThread _⟩
      · exact ⟨_, rfl, .missesThread⟩
  case createThread =>
    split
    · exact ⟨_, rfl, .createdThread⟩
    · exact ⟨_, rfl, .notCreatedThread _⟩
  case regetThread e =>
    split
    · exact ⟨_, rfl, .otherCreatedThread e⟩
    · exact ⟨_, rfl, .withoutThread e⟩
  case cached =>
    simp only [tryServeCached]
    split
    · split
      · exact ⟨_, rfl, .servedCached⟩
      · exact ⟨_, rfl, .notServedCached _⟩
    · exact ⟨_, rfl, .notCached⟩
  case cachedReload =>
    split
    · rename_i run hrun _
      exact ⟨_, rfl, .reloaded (getRun_of_fetchRun (Env.query_ok hrun))⟩
    · exact ⟨_, rfl, .notReloaded _⟩
    · exact ⟨_, rfl, .notReloaded _⟩
  case cachedFallback e =>
    cases h : findRunForRetry srv env c.ctx c.req c.threadId db with
    | some => exact ⟨_, rfl, .foundCached h⟩
    | none => exact ⟨_, rfl, .notFoundCached e⟩
  case claim =>
    exact tryClaim_goes
  case busyFallback =>
    cases h : c.raceFallback srv env db with
    | some => exact ⟨_, rfl, .foundBusy h⟩
    | none => exact ⟨_, rfl, .notFoundBusy _⟩
  case parent runId =>
    simp only [checkParent]
    split
    · exact ⟨_, rfl, .parentRefused _⟩
    · split_ifs
      · exact ⟨_, rfl, .parentRefused _⟩
      · exact ⟨_, rfl, .parentFound _⟩
  case siblings parent =>
    simp only [checkSiblings]
    split
    · exact ⟨_, rfl, .siblingsRefused _⟩
    · split_ifs
      · exact ⟨_, rfl, .siblingsRefused _⟩
      · exact ⟨_, rfl, .siblingsCounted⟩
  case insertFallback e =>
    cases h : c.raceFallback srv env db with
    | some => exact ⟨_, rfl, .foundInserted h⟩
    | none => exact ⟨_, rfl, .notFoundInserted e⟩
  case unclaim retried response =>
    exact transition_goes (q := (.unclaim · response)) _ .unclaimAgain fun _ => .unclaimed
  case enqueue run =>
    split
    · exact ⟨_, rfl, .enqueued⟩
    · exact ⟨_, rfl, .notEnqueued⟩
  case rollbackStatus retried =>
    exact transition_goes (q := .rollbackStatus) _ .statusAgain fun _ => .statusWritten
  case rollbackRelease retried =>
    exact transition_goes (q := .rollbackRelease) _ .releaseAgain fun _ => .released _

theorem Create.goes_of_ne_resolve (srv : Server) (env : Env) (db : Db) (h : c.phase ≠ .resolve) :
    ∃ p, (c.next srv env db).1 = c.goto p ∧ Create.Goes srv env c db c.phase p :=
  (c.next_goes srv env db).resolve_right fun hresolve => h hresolve.1

/-- A create request keeps its tenant and its ids. -/
theorem Create.next_ids (srv : Server) (env : Env) (db : Db) (c : Create) :
    (c.next srv env db).1.ctx = c.ctx ∧
      (c.next srv env db).1.threadId = c.threadId ∧ (c.next srv env db).1.runId = c.runId := by
  obtain ⟨p, hp, -⟩ | ⟨-, -, hp⟩ := c.next_goes srv env db <;> rw [hp] <;> exact ⟨rfl, rfl, rfl⟩

/-! ## Rows of runs -/

/-- What a write can make of the row of a run that stays. -/
inductive RowStep (rolledBack : Prop) (r : Run) : Run → Prop where
  | same : RowStep rolledBack r r
  | begun {l : Loaded} {generation : ℤ} {raw : Text} (now : String) (hl : r.loaded = .ok l)
    (ht : r.status.terminal = false)
    (hraw : marshal (.object (Members.insert attemptGenerationKey (.number (.int generation))
      l.metadata)) = some raw) :
    RowStep rolledBack r { r with metadata := raw, status := .running, updatedAt := now }
  | completed {l : Loaded} {generation : ℤ} {raw : Text} {status : RunStatus} (output : Option Text)
    (error now : String) (hl : r.loaded = .ok l) (ht : r.status.terminal = false)
    (hst : status.terminal = true)
    (hraw : marshal (.object (Members.insert completionGenerationKey (.number (.int generation))
      l.metadata)) = some raw) :
    RowStep rolledBack r { r with
      metadata := raw, status := status, output := output, errorMsg := error, updatedAt := now }
  | failed (h : rolledBack) (now : String) :
    RowStep rolledBack r { r with
      status := .error, output := some .empty, errorMsg := "enqueue failed", updatedAt := now }

variable {db' : Db} {runId : String} {r : Run} {run : NewRun}

section

variable {rolledBack : Prop} {r r' : Run} (h : RowStep rolledBack r r')
include h

theorem RowStep.keeps :
    r'.tenantId = r.tenantId ∧ r'.threadId = r.threadId ∧ r'.agentId = r.agentId ∧
      r'.input = r.input := by
  cases h <;> exact ⟨rfl, rfl, rfl, rfl⟩

theorem RowStep.requestedAlias : r'.requestedAlias = r.requestedAlias := by
  cases h with
  | same | failed => rfl
  | begun now hl ht hraw | completed output error now hl ht hst hraw =>
    exact string_rewrite (loaded_ok_iff.1 hl).1 (by decide) hraw

end

theorem rowStep_beginRunAttempt (hr : db.runs.get? runId = some r) (k : String) (generation : ℤ)
    (env : Env) : ∃ r', (beginRunAttempt { system := true } k generation env.now env.driver
      db).2.runs.get? runId = some r' ∧ RowStep (rolledBack runId) r r' := by
  obtain heq | ⟨r₁, l, raw, hr₁, hl, hterm, -, hraw, hdb⟩ :=
    beginRunAttempt_cases { system := true } env.now env.driver db k generation
  · exact ⟨r, by rw [heq, hr], .same⟩
  rw [hdb, Db.get?_updateRuns, hr]
  by_cases hk : k = runId
  · subst hk
    cases hr₁.symm.trans hr
    refine ⟨_, rfl, ?_⟩
    simp only [ownRun_self hr, if_true]
    exact .begun env.now hl hterm hraw
  · refine ⟨r, ?_, .same⟩
    simp [ownRun, Table.key_of_get? hr, Ne.symm hk]

theorem rowStep_completeRun (hr : db.runs.get? runId = some r) (d : Dialect) (ctx : Ctx)
    (c : RunCompletion) (env : Env) : ∃ r', (completeRun d ctx c env.now env.driver
      db).2.runs.get? runId = some r' ∧ RowStep (rolledBack runId) r r' := by
  obtain ⟨-, heq⟩ | ⟨-, _, l, hr₁, hl, happ, hcomp⟩ :=
    completeRun_cases d ctx env.now env.driver db c
  · exact ⟨r, by rw [heq, hr], .same⟩
  by_cases hk : c.runId = runId
  · subst hk
    cases hr₁.symm.trans hr
    obtain ⟨-, ht, -, -⟩ := loaded_ok_iff.1 hl
    obtain ⟨_, output, hraw, -, hget⟩ := hcomp.get?_runs (by simpa using hr) ht
    obtain ⟨hst, -, -, hterm⟩ := checkCompletion_applied.1 happ
    rw [resolveCompletion_runId] at hget
    exact ⟨_, hget, .completed output _ _ hl hterm hst hraw⟩
  · refine ⟨r, ?_, .same⟩
    rw [hcomp.get?_runs_of_ne (by simpa using Ne.symm hk), hr]

/-- The row under an id after a cached creation : as it was, or the new one of the run, with the
completion applied. -/
theorem get?_createCachedRun (d : Dialect) (ctx : Ctx) (run : NewRun) (env : Env) (db : Db)
    (runId : String) :
    (createCachedRun d ctx run env.caps env.now env.driver db).2.runs.get? runId =
      db.runs.get? runId ∨
    ∃ pending c t metadata generation raw output error,
      prepareCachedRun run = .ok (pending, c) ∧
      db.threads.select (ownThread run.threadId ctx.tenant) = some t ∧
      runId = pending.runId ∧ db.runs.get? runId = none ∧
      decodeMetadata pending.metadataText = some metadata ∧
      Json.marshal (.object (Members.insert completionGenerationKey (.number (.int generation))
        metadata)) = some raw ∧
      (createCachedRun d ctx run env.caps env.now env.driver db).2.runs.get? runId =
        some { pending.row ctx.tenant with
          metadata := raw, status := .success, output := output, errorMsg := error,
          updatedAt := env.now } := by
  obtain ⟨e, he⟩ | ⟨pending, c, t, _, l, hprep, ht, -, hins, hl, hcomp⟩ :=
    createCachedRun_cases ctx run env.caps env.driver db d env.now
  · exact .inl (by rw [he])
  obtain ⟨hrunId, -, hcrun, -, hstatus, -⟩ := prepareCachedRun_ok hprep
  have hc : (resolveCompletion l.metadata c).runId = pending.runId := by
    rw [resolveCompletion_runId, hcrun, hrunId]
  by_cases hid : runId = pending.runId
  · subst hid
    obtain ⟨hmeta, hten, -⟩ := loaded_ok_iff.1 hl
    obtain ⟨raw, output, hraw, -, hget⟩ := hcomp.get?_runs (by rw [hc, get?_created hins]) hten
    rw [hc, resolveCompletion_status, hstatus] at hget
    exact .inr ⟨pending, c, t, _, _, raw, output, _, hprep, ht, rfl, (Table.rows_of_insert hins).1,
      hmeta, hraw, hget⟩
  · exact .inl (by
      rw [hcomp.get?_runs_of_ne (by rw [hc]; exact hid), get?_created_of_ne hins hid])

theorem rowStep_createCachedRun (hr : db.runs.get? runId = some r) (d : Dialect) (ctx : Ctx)
    (run : NewRun) (env : Env) : (createCachedRun d ctx run env.caps env.now env.driver
      db).2.runs.get? runId = some r := by
  obtain hsame | ⟨_, _, _, _, _, _, _, _, -, -, -, hnone, -⟩ :=
    get?_createCachedRun d ctx run env db runId
  · rw [hsame, hr]
  · rw [hnone] at hr
    cases hr

theorem Writes.rowStep (h : Writes srv rolledBack inserted db db') (hr : db.runs.get? runId = some r) :
    db'.runs.get? runId = none ∨
      ∃ r', db'.runs.get? runId = some r' ∧ RowStep (rolledBack runId) r r' := by
  cases h with
  | unchanged | insertThread | tryClaimThread | setThreadStatus | releaseThread =>
    exact .inr ⟨r, hr, .same⟩
  | @createRun ctx run t runs _ ht hins =>
    exact .inr ⟨r, Table.get?_kept_of_insert hins hr, .same⟩
  | @createCachedRun ctx run env _ =>
    exact .inr ⟨r, rowStep_createCachedRun hr srv.dialect ctx run env, .same⟩
  | beginRunAttempt k generation env => exact .inr (rowStep_beginRunAttempt hr k generation env)
  | completeRun ctx c env => exact .inr (rowStep_completeRun hr srv.dialect ctx c env)
  | @updateRunStatus ctx k now hrolled =>
    rw [Db.updateRunStatus, Db.get?_updateRuns, hr]
    refine .inr ⟨_, rfl, ?_⟩
    dsimp only
    split_ifs with hk
    · have hkey : runId = k := by
        simp only [Bool.and_eq_true, decide_eq_true_eq] at hk
        rw [← hk.1, Table.key_of_get? hr]
      exact .failed (hkey ▸ hrolled) now
    · exact .same
  | deleteRuns =>
    rw [Table.get?_delete, hr, Option.filter_some]
    split_ifs
    · exact .inr ⟨r, rfl, .same⟩
    · exact .inl rfl

theorem Writes.rowStep_kept {r' : Run} (h : Writes srv rolledBack inserted db db')
    (hr : db.runs.get? runId = some r) (hr' : db'.runs.get? runId = some r') :
    RowStep (rolledBack runId) r r' := by
  obtain hnone | ⟨r'', hr'', hrow⟩ := h.rowStep hr
  · simp [hnone] at hr'
  · cases hr''.symm.trans hr'
    exact hrow

/-- `requested_alias` of a run as the API hands it to the store. -/
def NewRun.requestedAlias (run : NewRun) : String :=
  Members.string (run.metadata.getD []) "requested_alias"

/-- What the row of an inserted run has of the run. -/
structure NewRun.Inserted (run : NewRun) (ctx : Ctx) (r : Run) : Prop where
  tenantId : r.tenantId = ctx.tenant
  threadId : r.threadId = run.threadId
  agentId : r.agentId = run.agentId
  input : r.input = run.input
  requestedAlias : Members.Distinct (run.metadata.getD []) → r.requestedAlias = run.requestedAlias

theorem NewRun.string_metadataText (h : Members.Distinct (run.metadata.getD []))
    (k : String) : run.metadataText.string k = Members.string (run.metadata.getD []) k := by
  unfold NewRun.metadataText
  cases hm : run.metadata with
  | none => rfl
  | some metadata =>
    rw [hm] at h
    obtain ⟨t, ht⟩ := Json.exists_marshal (.object metadata)
    simpa [ht] using Json.string_marshal h ht k

theorem NewRun.inserted_row (run : NewRun) (ctx : Ctx) : run.Inserted ctx (run.row ctx.tenant) where
  tenantId := rfl
  threadId := rfl
  agentId := rfl
  input := rfl
  requestedAlias h := NewRun.string_metadataText h _

theorem Writes.newRow_cases (h : Writes srv rolledBack inserted db db')
    (hnone : db.runs.get? runId = none) (hr : db'.runs.get? runId = some r) :
    (∃ ctx run t, inserted ctx run ∧ run.runId = runId ∧
      db.threads.select (ownThread run.threadId ctx.tenant) = some t ∧ r = run.row ctx.tenant) ∨
    ∃ ctx run, ∃ env : Env, inserted ctx run ∧
      db' = (Runkite.createCachedRun srv.dialect ctx run env.caps env.now env.driver db).2 := by
  have hupdate : ∀ {p f hf}, (db.updateRuns p f hf).runs.get? runId ≠ some r := by
    intro p f hf
    rw [Db.get?_updateRuns, hnone]
    simp
  have hsame : db.runs.get? runId ≠ some r := by simp [hnone]
  cases h with
  | unchanged | insertThread | tryClaimThread | setThreadStatus | releaseThread =>
    exact absurd hr hsame
  | @createRun ctx run t runs hrun ht hins =>
    rw [Table.get?_of_insert hins] at hr
    split_ifs at hr with hid
    · exact .inl ⟨ctx, run, t, hrun, hid.symm, ht, (Option.some.inj hr).symm⟩
    · exact absurd hr hsame
  | @createCachedRun ctx run env hrun => exact .inr ⟨ctx, run, env, hrun, rfl⟩
  | beginRunAttempt k generation env =>
    obtain heq | ⟨_, _, raw, -, -, -, -, -, hdb⟩ :=
      beginRunAttempt_cases { system := true } env.now env.driver db k generation
    · rw [heq] at hr
      exact absurd hr hsame
    · rw [hdb] at hr
      exact absurd hr hupdate
  | completeRun ctx c env =>
    obtain ⟨-, heq⟩ | ⟨-, _, l, hr₁, -, -, hcomp⟩ :=
      completeRun_cases srv.dialect ctx env.now env.driver db c
    · rw [heq] at hr
      exact absurd hr hsame
    · have hne : runId ≠ c.runId := by
        rintro rfl
        simp [hnone] at hr₁
      rw [hcomp.get?_runs_of_ne (by simpa using hne)] at hr
      exact absurd hr hsame
  | updateRunStatus => exact absurd hr hupdate
  | deleteRuns =>
    rw [Table.get?_delete, hnone] at hr
    simp at hr

theorem newRow_createCachedRun {ctx : Ctx} {env : Env} {d : Dialect}
    (hnone : db.runs.get? runId = none)
    (hr : (createCachedRun d ctx run env.caps env.now env.driver db).2.runs.get? runId = some r) :
    ∃ t, run.runId = runId ∧ db.threads.select (ownThread run.threadId ctx.tenant) = some t ∧
      run.Inserted ctx r ∧ r.status.terminal := by
  obtain hsame | ⟨pending, c, t, _, _, raw, _, _, hprep, ht, rfl, -, hmeta, hraw, hget⟩ :=
    get?_createCachedRun d ctx run env db runId
  · rw [hsame, hnone] at hr
    cases hr
  cases hget.symm.trans hr
  obtain ⟨hrunId, hthreadId, -⟩ := prepareCachedRun_ok hprep
  obtain ⟨hagent, hinput, hmetadata⟩ := prepareCachedRun_keeps hprep
  refine ⟨t, hrunId.symm, ht, ⟨rfl, hthreadId, hagent, hinput, fun hd => ?_⟩, rfl⟩
  have hd' : Members.Distinct (pending.metadata.getD []) := by
    rw [hmetadata, Option.getD_some]
    exact (hd.erase _).erase _
  calc raw.string "requested_alias"
      = pending.metadataText.string "requested_alias" := string_rewrite hmeta (by decide) hraw
    _ = pending.requestedAlias := NewRun.string_metadataText hd' _
    _ = run.requestedAlias := by
        unfold NewRun.requestedAlias Members.string
        rw [hmetadata, Option.getD_some, Members.lookup_erase, Members.lookup_erase,
          if_neg (by decide), if_neg (by decide)]

section

variable (h : Writes srv rolledBack inserted db db') (hnone : db.runs.get? runId = none)
  (hr : db'.runs.get? runId = some r)
include h hnone hr

theorem Writes.newRow : ∃ ctx run t, inserted ctx run ∧ run.runId = runId ∧ run.Inserted ctx r ∧
      db.threads.get? run.threadId = some t ∧ t.tenantId = ctx.tenant := by
  obtain ⟨ctx, run, t, hrun, hid, ht, rfl⟩ | ⟨ctx, run, _, hrun, rfl⟩ := h.newRow_cases hnone hr
  · exact ⟨ctx, run, t, hrun, hid, run.inserted_row ctx, get?_of_select_ownThread ht⟩
  · obtain ⟨t, hid, ht, hinserted, -⟩ := newRow_createCachedRun hnone hr
    exact ⟨ctx, run, t, hrun, hid, hinserted, get?_of_select_ownThread ht⟩

theorem Writes.newRow_open (hopen : r.status.terminal = false) :
    ∃ ctx run, inserted ctx run ∧ run.runId = runId ∧ r = run.row ctx.tenant := by
  obtain ⟨ctx, run, t, hrun, hid, -, hrow⟩ | ⟨ctx, run, _, hrun, rfl⟩ := h.newRow_cases hnone hr
  · exact ⟨ctx, run, hrun, hid, hrow⟩
  · obtain ⟨-, -, -, -, hterm⟩ := newRow_createCachedRun hnone hr
    simp [hterm] at hopen

end

end Runkite
