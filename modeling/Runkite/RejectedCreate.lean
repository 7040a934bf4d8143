import Runkite.ThreadExclusive

/-!
# What a rejected create leaves behind

A create request claims its thread, and gives it back on each path on which it is answered with an
error. It gives it back as idle, whatever it was : `rejected_create_restores_iff` says that the
status is as before exactly if that was idle, or the request is refused before it takes the thread.
The thread of an interrupted run is idle after a rejected create (`interrupted_thread_idled`).
-/

open Transaction (Driver)

namespace Runkite

open Create

/-! ## The status of a thread -/

variable {db db' : Db} {ctx : Ctx} {threadId now : String} {t : Thread}

section

variable {status : ThreadStatus} (ht : db.threads.get? threadId = some t)
include ht

theorem get?_setThreadStatus (hsees : ctx.sees t.tenantId) :
    (db.setThreadStatus ctx threadId status now).threads.get? threadId =
      some { t with status := status, updatedAt := now } := by
  rw [Db.setThreadStatus, Db.get?_updateThreads, ht]
  simp [Table.key_of_get? ht, hsees]

theorem get?_tryClaimThread (ctx : Ctx) (now : String) :
    (db.tryClaimThread ctx threadId now).2.threads.get? threadId =
      some (if (db.tryClaimThread ctx threadId now).1 then
        { t with status := .busy, updatedAt := now } else t) := by
  have hclaim : (db.tryClaimThread ctx threadId now).1 ↔
      t.status ≠ .busy ∧ ctx.sees t.tenantId := by
    rw [Db.tryClaimThread_fst]
    constructor
    · rintro ⟨t', ht', hrest⟩
      rw [ht] at ht'
      exact Option.some.inj ht' ▸ hrest
    · exact fun hrest => ⟨t, ht, hrest⟩
  simp only [hclaim]
  rw [Db.tryClaimThread, Db.get?_updateThreads, ht]
  simp [Table.key_of_get? ht]

theorem get?_releaseThread {runId : String} (hbusy : t.status = .busy)
    (hsees : ctx.sees t.tenantId) (hfree : ∀ id, id ≠ runId → ¬ db.uses threadId id) :
    (db.releaseThreadIfNoOtherActive ctx threadId runId status now).2.threads.get? threadId =
      some { t with status := status, updatedAt := now } := by
  have hother : db.otherActive threadId runId = false := by
    rw [Bool.eq_false_iff]
    intro hother
    obtain ⟨id, hne, hid⟩ := Db.otherActive_iff.1 hother
    exact hfree id hne hid
  rw [Db.releaseThreadIfNoOtherActive, Db.get?_updateThreads, ht]
  simp [Table.key_of_get? ht, hbusy, hsees, hother]

end

/-! ## The invariant of a request -/

/-- The request was answered with a run. -/
def Phase.accepted : Phase → Bool
  | .done response => response.isRun
  | _ => false

/-- The phases in which a create request writes the status of its thread. -/
def Phase.setsStatus : Phase → Bool
  | .claim | .unclaim .. | .rollbackRelease _ => true
  | _ => false

/-- The step takes the thread : `TryClaimThread` succeeds, or the transaction of a run from the cache
becomes durable. -/
def Create.Takes (srv : Server) (env : Env) (c : Create) (db : Db) : Prop :=
  c.phase = .claim ∧ (db.tryClaimThread c.ctx c.threadId env.now).1 = true ∨
    c.phase = .cached ∧ (c.next srv env db).2 ≠ db

/-- Between its claim and its answer the request has the thread, which is idle when it gives it back;
else the thread has the status `prior`, until the request is answered with a run. -/
structure ThreadKept (prior : ThreadStatus) (ctx : Ctx) (threadId runId : String) (phase : Phase)
    (db : Db) : Prop where
  /-- No other run uses a thread that can be claimed. -/
  free : prior ≠ .busy → ∀ id, id ≠ runId → ¬ db.uses threadId id
  claimed : phase.attached = true → prior = .idle ∧
    ∃ t, db.threads.get? threadId = some t ∧ t.status = .busy ∧ ctx.sees t.tenantId = true
  kept : phase.attached = false → phase.accepted = false →
    ∃ t, db.threads.get? threadId = some t ∧ t.status = prior

variable {prior : ThreadStatus} {srv : Server} {env : Env} {c : Create}

/-- The thread and the use of it are as they were. -/
def SameThread (threadId : String) (db db' : Db) : Prop :=
  db'.threads.get? threadId = db.threads.get? threadId ∧
    ∀ id, db'.uses threadId id ↔ db.uses threadId id

theorem ThreadKept.of_same {ctx : Ctx} {threadId runId : String} {phase phase' : Phase}
    (h : ThreadKept prior ctx threadId runId phase db) (hsame : SameThread threadId db db')
    (hattached : phase'.attached → phase.attached)
    (haccepted : phase'.attached = false → phase'.accepted = false →
      phase.attached = false ∧ phase.accepted = false) :
    ThreadKept prior ctx threadId runId phase' db' where
  free hidle id hne := by
    rw [hsame.2]
    exact h.free hidle id hne
  claimed hphase := by
    rw [hsame.1]
    exact h.claimed (hattached hphase)
  kept hnot haccept := by
    obtain ⟨hnot', haccept'⟩ := haccepted hnot haccept
    rw [hsame.1]
    exact h.kept hnot' haccept'

theorem SameThread.refl (threadId : String) (db : Db) : SameThread threadId db db :=
  ⟨rfl, fun _ => .rfl⟩

/-- After a step of the request the thread is kept. -/
def Create.Keeps (prior : ThreadStatus) (srv : Server) (env : Env) (c : Create) (db : Db) : Prop :=
  ThreadKept prior c.ctx c.threadId c.runId (c.next srv env db).1.phase (c.next srv env db).2

section

variable (h : ThreadKept prior c.ctx c.threadId c.runId c.phase db)
include h

theorem ThreadKept.reads (hreads : c.phase.writes = false) : c.Keeps prior srv env db := by
  unfold Create.Keeps
  rw [(next_of_not_writes srv env db hreads).1]
  obtain ⟨p, hp, hgoes⟩ | ⟨hresolve, -, hp⟩ := c.next_goes srv env db
  · rw [hp]
    clear hp
    refine h.of_same (.refl _ _) ?_ ?_ <;> clear h <;> revert hreads hgoes <;>
      cases c.phase <;> intro hreads hgoes <;> cases hgoes <;>
      simp_all [Create.goto, Phase.attached, Phase.accepted, Phase.writes, Response.isRun]
  · rw [hp]
    refine h.of_same (.refl _ _) (fun h => by cases h) fun _ _ => ?_
    rw [hresolve]
    exact ⟨rfl, rfl⟩

theorem ThreadKept.createThread (hphase : c.phase = .createThread) : c.Keeps prior srv env db := by
  unfold Create.Keeps
  obtain ⟨p, hp, hgoes⟩ := goes_of_ne_resolve srv env db (c := c) (by simp [hphase])
  have hstores := c.next_stores srv env db
  generalize (c.next srv env db).2 = db' at hstores ⊢
  rw [hphase] at h hgoes hstores
  obtain ⟨t, ht, -⟩ := h.kept rfl rfl
  rw [hp]
  refine h.of_same ?_ (by cases hgoes <;> intro h <;> cases h) fun _ _ => ⟨rfl, rfl⟩
  cases hstores with
  | unchanged => exact .refl _ _
  | createThread hins => exact ⟨(Table.get?_kept_of_insert hins ht).trans ht.symm, fun _ => .rfl⟩

/-- What a step that can take the thread does : it has the thread as an idle one, or leaves it. -/
def Create.TakesOrKeeps (prior : ThreadStatus) (srv : Server) (env : Env) (c : Create) (db : Db) :
    Prop :=
  (c.Takes srv env db → prior ≠ .busy ∧ c.Keeps .idle srv env db) ∧
    (¬ c.Takes srv env db → c.Keeps prior srv env db)

theorem ThreadKept.claim (hphase : c.phase = .claim) (hclean : env.driver.clean) :
    c.TakesOrKeeps prior srv env db := by
  have htakes : c.Takes srv env db ↔ (db.tryClaimThread c.ctx c.threadId env.now).1 := by
    simp [Create.Takes, hphase]
  rw [Create.TakesOrKeeps, htakes]
  unfold Create.Keeps
  have hnext : c.next srv env db = c.tryClaim env db := by simp [next, hphase]
  rw [hphase] at h
  obtain ⟨t, ht, hstatus⟩ := h.kept rfl rfl
  rw [hnext, tryClaim,
    Env.write_clean hclean (fun db => db.tryClaimThread c.ctx c.threadId env.now)]
  have hrow := get?_tryClaimThread ht c.ctx env.now
  have huses : ∀ id, (db.tryClaimThread c.ctx c.threadId env.now).2.uses c.threadId id ↔
      db.uses c.threadId id := fun _ => .rfl
  cases hclaim : (db.tryClaimThread c.ctx c.threadId env.now).1 with
  | false =>
    rw [hclaim] at hrow
    refine ⟨fun h => (by cases h), fun _ => ?_⟩
    exact h.of_same ⟨hrow.trans ht.symm, huses⟩ (fun h => by cases h) fun _ _ => ⟨rfl, rfl⟩
  | true =>
    obtain ⟨_, ht', hidle, hsees⟩ := Db.tryClaimThread_fst.1 hclaim
    cases ht.symm.trans ht'
    have hprior : prior ≠ .busy := fun hb => hidle (hstatus.trans hb)
    rw [hclaim] at hrow
    refine ⟨fun _ => ⟨hprior, ?_⟩, fun h => absurd rfl h⟩
    have hclaimed : ∀ p, p.attached → ThreadKept .idle c.ctx c.threadId c.runId p
        (db.tryClaimThread c.ctx c.threadId env.now).2 := fun p hp =>
      ⟨fun _ id hne hid => h.free hprior id hne ((huses id).1 hid),
        fun _ => ⟨rfl, _, hrow, rfl, hsees⟩, fun hnot => by rw [hp] at hnot; cases hnot⟩
    cases c.req.parentRunId with
    | none | some => exact hclaimed _ rfl

end

/-- A run from the cache is inserted and completed at once, on a thread that is idle after it. -/
theorem sameStatus_createCachedRun (srv : Server) (env : Env) (ctx : Ctx) (run : NewRun) {t : Thread}
    (ht : db.threads.get? run.threadId = some t)
    (hfree : t.status ≠ .busy → ∀ id, id ≠ run.runId → ¬ db.uses run.threadId id)
    (hdb : db' = (createCachedRun srv.dialect ctx run env.caps env.now env.driver db).2) :
    db' = db ∨ t.status ≠ .busy ∧
      (∃ t', db'.threads.get? run.threadId = some t' ∧ t'.status = .idle) ∧
      ∀ id, db'.uses run.threadId id → db.uses run.threadId id := by
  obtain rfl | ⟨⟨t₀, ht₀, hidle⟩, huses, -, hmine, t', ht', hreleased⟩ :=
    lock_createCachedRun srv.dialect env ctx run db hdb
  · exact .inl rfl
  cases ht.symm.trans ht₀
  have hdown : ¬ db'.busy run.threadId :=
    hmine.resolve_right fun ⟨id, hne, hid⟩ => hfree hidle id hne hid
  exact .inr ⟨hidle, ⟨t', ht', hreleased.resolve_left fun hup => hdown ⟨t', ht', hup⟩⟩,
    fun id => (huses _ id).1⟩

section

variable {retried : Bool} (h : ThreadKept prior c.ctx c.threadId c.runId c.phase db)
include h

theorem ThreadKept.cached (hphase : c.phase = .cached) : c.TakesOrKeeps prior srv env db := by
  have htakes : c.Takes srv env db ↔ (c.next srv env db).2 ≠ db := by
    simp [Create.Takes, hphase]
  rw [Create.TakesOrKeeps, htakes]
  unfold Create.Keeps
  have hnext : c.next srv env db = c.tryServeCached srv env db := by simp [next, hphase]
  rw [hphase] at h
  obtain ⟨t, ht, hstatus⟩ := h.kept rfl rfl
  have hserved : ∀ (output : Json.Text) (p : Phase) db', p.attached = false →
      db' = (createCachedRun srv.dialect c.ctx (c.cachedRun env output) env.caps env.now env.driver
        db).2 → (db' ≠ db → prior ≠ .busy ∧ ThreadKept .idle c.ctx c.threadId c.runId p db') ∧
      (¬ db' ≠ db → ThreadKept prior c.ctx c.threadId c.runId p db') := by
    intro output p db' hp hdb
    have hnot : ∀ {q : Prop}, p.attached = true → q := fun hattached => by
      rw [hp] at hattached
      cases hattached
    by_cases hsame : db' = db
    · subst hsame
      exact ⟨fun hne => absurd rfl hne, fun _ => h.of_same (.refl _ _) hnot fun _ _ => ⟨rfl, rfl⟩⟩
    · obtain ⟨hidle, hafter, huses⟩ := (sameStatus_createCachedRun srv env c.ctx
        (c.cachedRun env output) ht (fun hidle => h.free (hstatus ▸ hidle)) hdb).resolve_left hsame
      have hprior : prior ≠ .busy := hstatus ▸ hidle
      exact ⟨fun _ => ⟨hprior, fun _ id hne hid => h.free hprior id hne (huses id hid), hnot,
        fun _ _ => hafter⟩, fun h => absurd hsame h⟩
  rw [hnext, tryServeCached]
  split
  · rename_i output _ _
    split <;> rename_i heq
    · exact hserved output .cachedReload _ rfl (by rw [heq])
    · rename_i e _
      exact hserved output (.cachedFallback e) _ rfl (by rw [heq])
  · exact ⟨fun hne => absurd rfl hne,
      fun _ => h.of_same (.refl _ _) (fun h => by cases h) fun _ _ => ⟨rfl, rfl⟩⟩

theorem ThreadKept.insert {parent : Option Run} (hphase : c.phase = .insert parent) :
    c.Keeps prior srv env db := by
  rw [hphase] at h
  simp only [Create.Keeps, next, hphase]
  obtain ⟨hprior, t, ht, hbusy, hsees⟩ := h.claimed rfl
  have hinserted : ∀ (p : Phase) (runs : Table Run String Run.runId), p.attached →
      db.runs.insert ((c.newRun env parent).row c.ctx.tenant) = some runs →
      ThreadKept prior c.ctx c.threadId c.runId p { db with runs := runs } := by
    intro p runs hp hins
    refine ⟨fun hidle id hne hid => ?_, fun _ => ⟨hprior, t, ht, hbusy, hsees⟩,
      fun hnot => (by rw [hp] at hnot; cases hnot)⟩
    rw [Db.uses_of_insert hins rfl] at hid
    rcases hid with hold | ⟨rfl, -⟩
    · exact h.free hidle id hne hold
    · exact hne rfl
  obtain ⟨e, he⟩ | ⟨_, runs, -, hins, hok | ⟨e, -, he⟩⟩ :=
    createRunAdmitted_cases c.ctx (c.newRun env parent) env.caps env.driver db
  · rw [he]
    exact h.of_same (.refl _ _) (fun _ => rfl) fun h => by cases h
  · rw [hok]
    exact hinserted _ runs rfl hins
  · rw [he]
    exact hinserted _ runs rfl hins

theorem ThreadKept.unclaim {response : Response}
    (hphase : c.phase = .unclaim retried response) (hclean : env.driver.clean) :
    c.Keeps prior srv env db := by
  rw [hphase] at h
  simp only [Create.Keeps, next, hphase]
  rw [Env.write_clean hclean
    (fun db => ((), db.setThreadStatus c.ctx c.threadId .idle env.now))]
  obtain ⟨hprior, t, ht, -, hsees⟩ := h.claimed rfl
  exact ⟨fun hidle id hne hid => h.free hidle id hne hid, fun h => (by cases h),
    fun _ _ => ⟨_, get?_setThreadStatus ht hsees, hprior.symm⟩⟩

theorem ThreadKept.rollbackStatus (hphase : c.phase = .rollbackStatus retried) :
    c.Keeps prior srv env db := by
  unfold Create.Keeps
  obtain ⟨p, hp, hgoes⟩ := goes_of_ne_resolve srv env db (c := c) (by simp [hphase])
  have hstores := c.next_stores srv env db
  generalize (c.next srv env db).2 = db' at hstores ⊢
  rw [hphase] at h hgoes hstores
  have hattached : p.attached := by cases hgoes <;> rfl
  rw [hp]
  cases hstores with
  | unchanged => exact h.of_same (.refl _ _) (fun _ => rfl) (by simp [goto, hattached])
  | rollbackStatus =>
    obtain ⟨hprior, t, ht, hbusy, hsees⟩ := h.claimed rfl
    exact ⟨fun hidle id hne hid => h.free hidle id hne (Db.uses_updateRunStatus.1 hid).1,
      fun _ => ⟨hprior, t, ht, hbusy, hsees⟩, by simp [goto, hattached]⟩

theorem ThreadKept.rollbackRelease (hphase : c.phase = .rollbackRelease retried)
    (hclean : env.driver.clean) : c.Keeps prior srv env db := by
  rw [hphase] at h
  simp only [Create.Keeps, next, hphase]
  rw [Env.write_clean hclean
    (fun db => ((), (db.releaseThreadIfNoOtherActive c.ctx c.threadId c.runId .idle env.now).2))]
  obtain ⟨hprior, t, ht, hbusy, hsees⟩ := h.claimed rfl
  exact ⟨fun hidle id hne hid => h.free hidle id hne hid, fun h => (by cases h),
    fun _ _ => ⟨_, get?_releaseThread ht hbusy hsees (h.free (by simp [hprior])), hprior.symm⟩⟩

/-- A step of the request. The statements that claim and release the thread have to get through. -/
theorem ThreadKept.next (hclean : c.phase.setsStatus → env.driver.clean) :
    c.TakesOrKeeps prior srv env db := by
  have hleaves : ¬ (c.phase = .claim ∨ c.phase = .cached) → c.Keeps prior srv env db →
      c.TakesOrKeeps prior srv env db := fun hnot hkeeps =>
    ⟨fun h => absurd (h.imp And.left And.left) hnot, fun _ => hkeeps⟩
  cases hphase : c.phase with
  | claim => exact h.claim hphase (hclean (by rw [hphase]; rfl))
  | cached => exact h.cached hphase
  | createThread => exact hleaves (by simp [hphase]) (h.createThread hphase)
  | insert => exact hleaves (by simp [hphase]) (h.insert hphase)
  | unclaim => exact hleaves (by simp [hphase]) (h.unclaim hphase (hclean (by rw [hphase]; rfl)))
  | rollbackStatus => exact hleaves (by simp [hphase]) (h.rollbackStatus hphase)
  | rollbackRelease =>
    exact hleaves (by simp [hphase]) (h.rollbackRelease hphase (hclean (by rw [hphase]; rfl)))
  | _ => exact hleaves (by simp [hphase]) (h.reads (by rw [hphase]; rfl))

end

/-! ## Requests -/

/-- A step of another request, or of no request, leaves the thread and its use alone. -/
def Untouched (srv : Server) (i : ℕ) (threadId : String) (ev : Event) (w : World) : Prop :=
  (∃ env, ev = .proceed i env) ∨ SameThread threadId w.db (w.step srv ev).db

/-- The statements with which the request claims and releases its thread get through. -/
def getsThrough (i : ℕ) : Event → World → Bool
  | .proceed j env, w =>
    match w.requests[j]? with
    | some (.create c) => j ≠ i || !c.phase.setsStatus || env.driver.clean
    | _ => true
  | _, _ => true

/-- The step is one with which the request takes its thread. -/
def TakesThread (srv : Server) (i : ℕ) (ev : Event) (w : World) : Prop :=
  ∃ env c, ev = .proceed i env ∧ w.requests[i]? = some (.create c) ∧ c.Takes srv env w.db

variable {srv : Server} {w : World} {i : ℕ} {c : Create}

/-- A request stays as it is until it takes a step. -/
theorem World.step_request_of_ne {r : Request} (hr : w.requests[i]? = some r) {ev : Event}
    (hne : ∀ env, ev ≠ .proceed i env) : (w.step srv ev).requests[i]? = some r := by
  have haccept : ∀ r', (w.accept r').requests[i]? = some r := by
    intro r'
    rw [World.accept, List.getElem?_append_left (List.getElem?_eq_some_iff.1 hr).1, hr]
  cases ev with
  | create | delete | cancel | copy => exact haccept _
  | proceed j env =>
    have hj : j ≠ i := fun heq => hne env (heq ▸ rfl)
    simp only [World.step]
    cases w.requests[j]? with
    | none => exact hr
    | some => exact (List.getElem?_set_ne hj).trans hr
  | beginRunAttempt | completeRun | queue | pruneRuns => exact hr

theorem World.step_proceed_create (srv : Server) (env : Env) (hr : w.requests[i]? = some (.create c)) :
    (w.step srv (.proceed i env)).db = (c.next srv env w.db).2 ∧
      (w.step srv (.proceed i env)).requests[i]? = some (.create (c.next srv env w.db).1) := by
  simp only [World.step, hr]
  exact ⟨rfl, List.getElem?_set_self (List.getElem?_eq_some_iff.1 hr).1⟩

/-- The request of a tenant for a run on a thread is in flight, and the thread is kept. -/
structure RequestKept (prior : ThreadStatus) (ctx : Ctx) (threadId runId : String) (i : ℕ)
    (c : Create) (w : World) : Prop where
  request : w.requests[i]? = some (.create c)
  ids : c.ctx = ctx ∧ c.threadId = threadId ∧ c.runId = runId
  thread : ThreadKept prior ctx threadId runId c.phase w.db

section

variable {prior : ThreadStatus} {ctx : Ctx} {threadId runId : String}

theorem RequestKept.step {ev : Event} (h : RequestKept prior ctx threadId runId i c w)
    (halone : Untouched srv i threadId ev w) (hclean : getsThrough i ev w) :
    (TakesThread srv i ev w → prior ≠ .busy ∧
      ∃ c', RequestKept .idle ctx threadId runId i c' (w.step srv ev)) ∧
    (¬ TakesThread srv i ev w → ∃ c', RequestKept prior ctx threadId runId i c' (w.step srv ev)) := by
  obtain ⟨hr, ⟨rfl, rfl, rfl⟩, hthread⟩ := h
  by_cases hown : ∃ env, ev = .proceed i env
  · obtain ⟨env, rfl⟩ := hown
    obtain ⟨hdb, hr'⟩ := World.step_proceed_create srv env hr
    have htakes : TakesThread srv i (.proceed i env) w ↔ c.Takes srv env w.db := by
      simp [TakesThread, hr]
    have hkept : ∀ {rest}, c.Keeps rest srv env w.db →
        ∃ c', RequestKept rest c.ctx c.threadId c.runId i c' (w.step srv (.proceed i env)) :=
      fun hkeeps => ⟨_, hr', c.next_ids srv env w.db, hdb ▸ hkeeps⟩
    have hstep : c.TakesOrKeeps prior srv env w.db := hthread.next fun hsets => by
      simpa [getsThrough, hr, hsets] using hclean
    obtain ⟨htaken, hleft⟩ := hstep
    rw [htakes]
    exact ⟨fun h => ⟨(htaken h).1, hkept (htaken h).2⟩, fun h => hkept (hleft h)⟩
  · refine ⟨fun ⟨env, _, hev, _⟩ => absurd ⟨env, hev⟩ hown, fun _ => ⟨c,
      World.step_request_of_ne hr fun env heq => hown ⟨env, heq⟩, ⟨rfl, rfl, rfl⟩,
      hthread.of_same (halone.resolve_left hown) id fun hnot haccept => ⟨hnot, haccept⟩⟩⟩

/-- Once the request has taken the thread it is kept as an idle one. -/
theorem RequestKept.run : ∀ {evs : List Event} {w : World} {prior : ThreadStatus} {c : Create},
    RequestKept prior ctx threadId runId i c w →
    Trace.Every (World.step srv) (Untouched srv i threadId) evs w →
    Trace.Every (World.step srv) (fun ev w => getsThrough i ev w = true) evs w →
    ∃ rest c', RequestKept rest ctx threadId runId i c' (Trace.run (World.step srv) evs w) ∧
      (rest = prior ↔ prior = .idle ∨
        Trace.Every (World.step srv) (fun ev w => ¬ TakesThread srv i ev w) evs w)
  | [], _, prior, c, h, _, _ => ⟨prior, c, h, by simp [Trace.Every]⟩
  | ev :: evs, w, prior, c, h, ⟨halone, hothers⟩, ⟨hclean, hcleans⟩ => by
    obtain ⟨htaken, hleft⟩ := h.step halone hclean
    by_cases htakes : TakesThread srv i ev w
    · obtain ⟨hprior, c', h'⟩ := htaken htakes
      obtain ⟨rest, c'', h'', hrest⟩ := RequestKept.run h' hothers hcleans
      have hidle : rest = .idle := hrest.2 (.inl rfl)
      refine ⟨rest, c'', h'', ?_⟩
      simp [Trace.Every, htakes, hidle, eq_comm]
    · obtain ⟨c', h'⟩ := hleft htakes
      obtain ⟨rest, c'', h'', hrest⟩ := RequestKept.run h' hothers hcleans
      exact ⟨rest, c'', h'', by simpa [Trace.Every, htakes] using hrest⟩

end

/-- A create request that is answered with an error, while nothing else touches the thread, leaves it
with the status it had exactly if that was idle, or the request did not come to take the thread. -/
theorem rejected_create_restores_iff (srv : Server) (w : World) (i : ℕ) (c : Create)
    (hrequest : w.requests[i]? = some (.create c)) (harrived : c.phase = .arrived) (t : Thread)
    (ht : w.db.threads.get? c.threadId = some t)
    (hfree : t.status ≠ .busy → ∀ id, id ≠ c.runId → ¬ w.db.uses c.threadId id) (evs : List Event)
    (halone : Trace.Every (World.step srv) (Untouched srv i c.threadId) evs w)
    (hclean : Trace.Every (World.step srv) (fun ev w => getsThrough i ev w = true) evs w)
    (c' : Create) (hanswered : (Trace.run (World.step srv) evs w).requests[i]? = some (.create c'))
    (response : Response) (hdone : c'.phase = .done response) (herror : response.isRun = false) :
    (∃ t', (Trace.run (World.step srv) evs w).db.threads.get? c.threadId = some t' ∧
      t'.status = t.status) ↔
    t.status = .idle ∨ Trace.Every (World.step srv) (fun ev w => ¬ TakesThread srv i ev w) evs w := by
  have hinit : RequestKept t.status c.ctx c.threadId c.runId i c w :=
    ⟨hrequest, ⟨rfl, rfl, rfl⟩, hfree, fun h => (by rw [harrived] at h; cases h),
      fun _ _ => ⟨t, ht, rfl⟩⟩
  obtain ⟨rest, c₁, ⟨hr, -, hkept⟩, hrest⟩ := hinit.run halone hclean
  obtain rfl : c₁ = c' := by
    rw [hanswered] at hr
    cases hr
    rfl
  rw [hdone] at hkept
  obtain ⟨t', ht', hstatus⟩ := hkept.kept rfl herror
  rw [← hrest, ← hstatus]
  constructor
  · rintro ⟨t'', ht'', h⟩
    rw [ht'] at ht''
    exact Option.some.inj ht'' ▸ h
  · exact fun h => ⟨t', ht', h⟩

/-- A thread with this status, and a request for a run on it that names a parent. -/
def delegated (status : ThreadStatus) : World where
  db := { (default : Db) with
    threads := ⟨[{ Thread.fresh "t" with status := status, values := .document .null }],
      List.nodup_singleton _⟩ }
  requests := [.create (.arrive {} { threadId := "t", agentId := "a", parentRunId := some "p" } ""
    "r" "")]

/-- The parent is missing, so the request is answered with an error. -/
def parentMissing : List Event := List.replicate 8 (.proceed 0 {})

theorem rejected_create_restores_idle :
    (Trace.run (World.step {}) parentMissing (delegated .idle)).requests.map Request.answered =
      [true] ∧
    ∀ c' response, (Trace.run (World.step {}) parentMissing (delegated .idle)).requests[0]? =
      some (.create c') → c'.phase = .done response → response.isRun = false →
      ∃ t', (Trace.run (World.step {}) parentMissing (delegated .idle)).db.threads.get? "t" =
        some t' ∧ t'.status = .idle := by
  refine ⟨by decide +kernel, fun c' response hc' hdone herror => ?_⟩
  refine (rejected_create_restores_iff {} (delegated .idle) 0 _ rfl rfl _ rfl ?_ parentMissing ?_
    (by decide +kernel) c' hc' response hdone herror).2 (.inl rfl)
  · rintro - id - ⟨r, hr, -⟩
    cases hr
  · refine Trace.every_of_imp (fun _ _ => .inl) (Trace.every_of_mem ?_)
    intro ev hev
    exact ⟨{}, List.eq_of_mem_replicate hev⟩

/-- The thread of an interrupted run, which waits for an answer, is idle after a create on it was
rejected. -/
theorem interrupted_thread_idled :
    let w := Trace.run (World.step {}) parentMissing (delegated .interrupted)
    (w.requests.map fun r => match r with
      | .create c => (match c.phase with
        | .done (.error e) => some e
        | _ => none)
      | _ => none) = [some (.notFound "run" "p")] ∧
    ((delegated .interrupted).db.threads.get? "t").map Thread.status = some .interrupted ∧
      (w.db.threads.get? "t").map Thread.status = some .idle := by decide +kernel

end Runkite
