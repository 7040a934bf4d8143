import Runkite.ThreadLock

/-!
# One active run per thread, and no thread stuck busy

`World.step_lock` assembles the moves that the steps make with the lock of a thread, the calls
of a create request one by one. The two results follow from the general facts about flag
locks : in a run of orderly steps at most one run of a thread is active
(`thread_exclusive`), and in a run of tidy steps, once no request is in flight, a busy thread
has an active run, and any other thread can be claimed (`thread_not_stuck`).

Neither holds of all runs. The rollback of a failed create releases the thread even if its run
lost it in the meantime, which can pull the flag from under another request
(`rollback_admits_second_run`); and the copy of a busy thread is a busy thread without a run
(`copied_thread_stuck`).
-/

open Transaction (Commit Driver)

namespace Runkite

open Create World

/-! ## The steps of a create request -/

/-- The phases in which a create request writes to the store. -/
def Phase.writes : Phase → Bool
  | .createThread | .cached | .claim | .insert _ | .unclaim .. | .rollbackStatus _
  | .rollbackRelease _ => true
  | _ => false

variable {srv : Server} {w : World} {env : Env} {c c' : Create} {db db' : Db} {tid : String}
  {retried : Bool} {i : ℕ}

theorem Create.next_of_not_writes (srv : Server) (env : Env) (db : Db) {c : Create}
    (h : c.phase.writes = false) :
    (c.next srv env db).2 = db ∧ (c.next srv env db).1.phase.owns = c.phase.owns := by
  have hstores := c.next_stores srv env db
  obtain ⟨p, hp, hgoes⟩ | ⟨hresolve, -, hp⟩ := c.next_goes srv env db
  · rw [hp]
    generalize (c.next srv env db).2 = db' at hstores ⊢
    generalize c.phase = q at h hstores hgoes
    constructor
    · cases hstores <;> first | rfl | cases h
    · cases hgoes <;> first | rfl | cases h
  · rw [hp]
    generalize (c.next srv env db).2 = db' at hstores ⊢
    rw [hresolve] at hstores ⊢
    cases hstores
    exact ⟨rfl, rfl⟩

/-- The step of the create request at place `i` from `c` to `c'`, which leaves `db'`. -/
structure World.Advances (srv : Server) (w : World) (i : ℕ) (env : Env) (c c' : Create) (db' : Db) :
    Prop where
  request : w.requests[i]? = some (.create c)
  next : c.next srv env w.db = (c', db')

namespace World.Advances

variable (h : w.Advances srv i env c c' db')
include h

theorem db_eq : (w.step srv (.proceed i env)).db = db' := by
  simp [step, h.request, Request.next, h.next]

theorem threadId_eq : c'.threadId = c.threadId := by
  have := (c.next_ids srv env w.db).2.1
  rwa [h.next] at this

theorem owns_self : w.owns tid i ↔ c.threadId = tid ∧ c.phase.owns := by simp [owns, h.request]

theorem owns_iff (j : ℕ) : (w.step srv (.proceed i env)).owns tid j ↔
    if j = i then c.threadId = tid ∧ c'.phase.owns else w.owns tid j := by
  have hset : (w.step srv (.proceed i env)).requests = w.requests.set i (.create c') := by
    simp [step, h.request, Request.next, h.next]
  rw [owns_set h.request hset]
  simp [h.threadId_eq]

theorem owns_same (howns : c.threadId = tid → c'.phase.owns = c.phase.owns) (j : ℕ) :
    (w.step srv (.proceed i env)).owns tid j ↔ w.owns tid j := by
  rw [h.owns_iff]
  split_ifs with hj
  · subst hj
    rw [h.owns_self]
    exact and_congr_right fun hthread => by rw [howns hthread]
  · rfl

theorem busy_iff : (w.step srv (.proceed i env)).db.busy tid ↔ db'.busy tid := by rw [h.db_eq]

/-- Neither the request nor the tables change what concerns the thread. -/
theorem of_same (howns : c.threadId = tid → c'.phase.owns = c.phase.owns)
    (hbusy : db'.busy tid ↔ w.db.busy tid) (huses : ∀ id, db'.uses tid id ↔ w.db.uses tid id) :
    w.Moves srv (.proceed i env) tid :=
  .of_same (h.owns_same howns) (h.busy_iff.trans hbusy)
    fun id => by rw [h.db_eq]; exact huses id

/-- The holders after the request takes or keeps its place. -/
theorem holders_insert (hthread : c.threadId = tid) (howns : c'.phase.owns)
    (huses : ∀ id, db'.uses tid id ↔ w.db.uses tid id) :
    ((w.step srv (.proceed i env)).lock tid).holders = insert (.inl i) (w.lock tid).holders := by
  ext (j | id)
  · rw [inl_mem_holders, h.owns_iff]
    by_cases hj : j = i <;> simp [hj, hthread, howns]
  · simp [h.db_eq, huses id]

/-- The request gives up a place and may leave the flag up. -/
theorem holders_subset (howns : c'.phase.owns → c.phase.owns)
    (huses : ∀ id, db'.uses tid id → w.db.uses tid id) :
    ((w.step srv (.proceed i env)).lock tid).holders ⊆ (w.lock tid).holders := by
  rintro (j | id) hmem
  · rw [inl_mem_holders, h.owns_iff] at hmem
    split_ifs at hmem with hj
    · subst hj
      exact h.owns_self.2 ⟨hmem.1, howns hmem.2⟩
    · exact hmem
  · rw [inr_mem_holders, h.db_eq] at hmem
    exact huses id hmem

end World.Advances

theorem clean_of_unacknowledged {d : Driver StoreError} {e : StoreError}
    (h : d.commit = .unacknowledged e) : d.clean = false := by simp [Driver.clean, h]

theorem tidy_of_not_clean (h : env.driver.clean = false) : Tidy (.proceed i env) w = false := by
  simp [Tidy, h]

/-- The outcomes of a write that cannot fail by itself. -/
theorem Env.write_outcomes {α : Type} (env : Env) (f : Db → α × Db) (db : Db) :
    (env.driver.clean = false ∧ ∃ e, env.write (fun db => .ok (f db)) db = (.error e, db)) ∨
    env.write (fun db => .ok (f db)) db = (.ok (f db).1, (f db).2) ∨
    ∃ e, env.driver.commit = .unacknowledged e ∧
      env.write (fun db => .ok (f db)) db = (.error e, (f db).2) := by
  obtain ⟨e, he⟩ | ⟨a, _, hf, hok | ⟨e, hun, he⟩⟩ := env.write_cases (fun db => .ok (f db)) db
  · refine .inl ⟨?_, e, he⟩
    by_contra hclean
    rw [Env.write_clean (by simpa using hclean)] at he
    cases he
  · rw [Except.ok.inj hf]
    exact .inr (.inl hok)
  · rw [Except.ok.inj hf]
    exact .inr (.inr ⟨e, hun, he⟩)

/-- A run from the cache takes the lock of a thread and releases it in one transaction: no run
becomes active, and the flag stays up only for another run on the thread. -/
theorem lock_createCachedRun (d : Dialect) (env : Env) (ctx : Ctx) (run : NewRun) (db : Db)
    (hdb : db' = (createCachedRun d ctx run env.caps env.now env.driver db).2) : db' = db ∨
    (∃ t, db.threads.get? run.threadId = some t ∧ t.status ≠ .busy) ∧
    (∀ tid id, db'.uses tid id ↔ db.uses tid id) ∧
    (∀ tid, tid ≠ run.threadId → (db'.busy tid ↔ db.busy tid)) ∧
    (¬ db'.busy run.threadId ∨ ∃ id, id ≠ run.runId ∧ db.uses run.threadId id) ∧
    ∃ t, db'.threads.get? run.threadId = some t ∧ (t.status = .busy ∨ t.status = .idle) := by
  obtain ⟨e, he⟩ | ⟨pending, cmp, t, runs, l, hprep, ht, hidle, hins, hl, hcomp⟩ :=
    createCachedRun_cases ctx run env.caps env.driver db d env.now
  · exact .inl (by rw [hdb, he])
  rw [← hdb] at hcomp
  obtain ⟨hrunId, hthreadId, hcrun, -, hst, -⟩ := prepareCachedRun_ok hprep
  obtain ⟨ht, htenant⟩ := get?_of_select_ownThread ht
  obtain ⟨-, hten, hthread, -⟩ := loaded_ok_iff.1 hl
  have hthread' : l.threadId = run.threadId := hthread.trans hthreadId
  have hcid : (resolveCompletion l.metadata cmp).runId = pending.runId := by
    rw [resolveCompletion_runId, hcrun, hrunId]
  -- the row is inserted as pending and completed at once, so no run becomes active
  have huses : ∀ tid id, db'.uses tid id ↔ db.uses tid id := by
    intro tid id
    rw [hcomp.uses (by rw [hcid, get?_created hins]) hten (by simp [hst, RunStatus.terminal]), hcid]
    by_cases hid : id = pending.runId
    · subst hid
      have hfree : db.runs.get? pending.runId = none := (Table.rows_of_insert hins).1
      simp [Db.uses, hfree]
    · rw [Db.uses_congr (get?_created_of_ne hins hid)]
      simp [hid]
  have hmine : (db.created ctx pending true runs).threads.get? l.threadId =
      some { t with status := .busy } := by
    simp [Db.created, Db.get?_updateThreads, hthread', ht, ownThread, Table.key_of_get? ht, hthreadId,
      htenant]
  have hothers : ∀ tid, tid ≠ run.threadId →
      ((db.created ctx pending true runs).busy tid ↔ db.busy tid) := by
    intro tid hne
    refine Db.busy_congr ?_
    simp only [Db.created, if_true, Db.get?_updateThreads]
    cases hrow : db.threads.get? tid with
    | none => rfl
    | some => simp [ownThread, Table.key_of_get? hrow, hthreadId, hne]
  obtain ⟨t', ht', -, hstatus⟩ := hcomp.get?_threads hmine
  have hbusy := hcomp.busy.2 _ hmine (htenant.trans hten.symm)
  rw [hcid, hrunId, hthread'] at hbusy
  rw [hthread'] at ht'
  refine .inr ⟨⟨t, ht, hidle⟩, huses, fun tid hne => ?_, ?_, t', ht', ?_⟩
  · exact (hcomp.busy.1 tid (hthread' ▸ hne)).trans (hothers tid hne)
  · simpa only [huses] using hbusy
  · rwa [resolveCompletion_status, hst] at hstatus

section

variable (hr : w.requests[i]? = some (.create c))
include hr

theorem orderly_of_unacknowledged {e : StoreError}
    (h : env.driver.commit = .unacknowledged e) : Orderly (.proceed i env) w = false := by
  simp [Orderly, hr, h, Commit.acknowledged]

/-- A step that writes nothing and leaves the request its place. -/
theorem World.moves_unchanged (hnext : c.next srv env w.db = (c', w.db))
    (howns : c'.phase.owns = c.phase.owns) : w.Moves srv (.proceed i env) tid :=
  Advances.of_same ⟨hr, hnext⟩ (fun _ => howns) .rfl fun _ => .rfl

/-- The claim takes the lock, if it finds the flag down. -/
theorem World.moves_claim (hphase : c.phase = .claim) : w.Moves srv (.proceed i env) tid := by
  have hnext : c.next srv env w.db = c.tryClaim env w.db := by simp [next, hphase]
  have howns : c.phase.owns = false := by rw [hphase]; rfl
  have hbusy : (w.db.tryClaimThread c.ctx c.threadId env.now).2.busy tid ↔
      w.db.busy tid ∨ tid = c.threadId ∧
        (w.db.tryClaimThread c.ctx c.threadId env.now).1 := Db.busy_tryClaimThread
  obtain ⟨-, e, he⟩ | hok | ⟨e, hun, he⟩ :=
    env.write_outcomes (fun db => db.tryClaimThread c.ctx c.threadId env.now) w.db
  · exact moves_unchanged hr (by rw [hnext, tryClaim, he]) (by rw [howns]; rfl)
  · cases hfst : (w.db.tryClaimThread c.ctx c.threadId env.now).1 with
    | false =>
      have h : w.Advances srv i env c (c.goto .busyFallback)
          (w.db.tryClaimThread c.ctx c.threadId env.now).2 :=
        ⟨hr, by rw [hnext, tryClaim, hok, hfst]⟩
      exact h.of_same (fun _ => by rw [howns]; rfl) (by rw [hbusy, hfst]; simp) fun _ => .rfl
    | true =>
      obtain ⟨c', h, howns'⟩ : ∃ c', w.Advances srv i env c c'
          (w.db.tryClaimThread c.ctx c.threadId env.now).2 ∧ c'.phase.owns := by
        cases hparent : c.req.parentRunId with
        | none =>
          exact ⟨c.goto (.insert none), ⟨hr, by
            rw [hnext, tryClaim, hok, hfst, hparent]⟩, rfl⟩
        | some parent =>
          exact ⟨c.goto (.parent parent), ⟨hr, by
            rw [hnext, tryClaim, hok, hfst, hparent]⟩, rfl⟩
      by_cases htid : c.threadId = tid
      · refine ⟨.take, .take (.inl i) ?_ ?_ (h.holders_insert htid howns' fun _ => .rfl),
          by simp [Allows]⟩
        · -- the statement affects a row that is not busy
          rintro ⟨t, ht, hup⟩
          obtain ⟨_, ht', hidle, -⟩ := Db.tryClaimThread_fst.1 hfst
          rw [htid, ht] at ht'
          exact hidle (Option.some.inj ht' ▸ hup)
        · exact h.busy_iff.2 (hbusy.2 (.inr ⟨htid.symm, hfst⟩))
      · exact h.of_same (fun h => absurd h htid)
          (by rw [hbusy]; simp [Ne.symm htid]) fun _ => .rfl
  · have h : w.Advances srv i env c (c.respond (.error e))
        (w.db.tryClaimThread c.ctx c.threadId env.now).2 :=
      ⟨hr, by rw [hnext, tryClaim, he]⟩
    by_cases hclaimed : tid = c.threadId ∧ (w.db.tryClaimThread c.ctx c.threadId env.now).1
    · refine ⟨.raise, .raise ?_ (holders_eq (h.owns_same fun _ => by rw [howns]; rfl) fun id => ?_),
        by simp [Allows, tidy_of_not_clean (clean_of_unacknowledged hun)]⟩
      · exact h.busy_iff.2 (hbusy.2 (.inr hclaimed))
      · rw [h.db_eq]
        rfl
    · exact h.of_same (fun _ => by rw [howns]; rfl) (by rw [hbusy]; simp [hclaimed]) fun _ => .rfl

/-- The insertion passes the place of the request on to its run. -/
theorem World.moves_insert {parent : Option Run} (hphase : c.phase = .insert parent) :
    w.Moves srv (.proceed i env) tid := by
  have howns : c.phase.owns := by rw [hphase]; rfl
  obtain ⟨e, he⟩ | ⟨t, runs, -, hins, hres⟩ :=
    createRunAdmitted_cases c.ctx (c.newRun env parent) env.caps env.driver w.db
  · have hnext : c.next srv env w.db = (c.goto (.insertFallback e), w.db) := by
      simp [next, hphase, he]
    exact moves_unchanged hr hnext (by rw [howns]; rfl)
  have huses : ∀ id, ({ w.db with runs := runs } : Db).uses tid id ↔
      w.db.uses tid id ∨ id = c.runId ∧ c.threadId = tid := by
    intro id
    rw [Db.uses_of_insert hins rfl]
    exact or_congr_right ⟨fun h => ⟨h.1, h.2.1⟩, fun h => ⟨h.1, h.2, rfl⟩⟩
  obtain hok | ⟨e, hun, he⟩ := hres
  · have h : w.Advances srv i env c (c.goto (.enqueue (c.newRun env parent)))
        { w.db with runs := runs } := ⟨hr, by simp [next, hphase, hok]⟩
    by_cases htid : c.threadId = tid
    · refine ⟨.pass, .pass (.inl i) (.inr c.runId) (h.owns_self.2 ⟨htid, howns⟩)
        h.busy_iff ?_, by simp [Allows]⟩
      ext (j | id)
      · rw [inl_mem_holders, h.owns_iff]
        by_cases hj : j = i <;> simp [hj, goto, Phase.owns]
      · rw [inr_mem_holders, h.db_eq, huses id]
        simp [htid, or_comm]
    · exact h.of_same (fun h => absurd h htid) .rfl fun id => by rw [huses id]; simp [htid]
  · have h : w.Advances srv i env c (c.goto (.insertFallback e)) { w.db with runs := runs } :=
      ⟨hr, by simp [next, hphase, he]⟩
    by_cases htid : c.threadId = tid
    · refine ⟨.intrude, .intrude (.inr c.runId) h.busy_iff ?_,
        by simp [Allows, orderly_of_unacknowledged hr hun]⟩
      ext (j | id)
      · simp [h.owns_same (fun _ => by rw [howns]; rfl) j]
      · rw [inr_mem_holders, h.db_eq, huses id]
        simp [htid, or_comm]
    · exact h.of_same (fun h => absurd h htid) .rfl fun id => by rw [huses id]; simp [htid]

/-- The request gives up its place with a write that lowers the flag or finds another holder.
It tries twice, whether or not the first write took effect. -/
theorem World.moves_transition {again next : Phase} {f : Db → Db} (hnext : c.next srv env w.db =
      c.transition retried again next (env.write (fun db => .ok ((), f db)) w.db))
    (howns : c.phase.owns) (hagain : again.owns) (hdone : next.owns = false)
    (hruns : (f w.db).runs = w.db.runs) {p : Thread → Prop}
    (hlowers : ∀ tid, (f w.db).busy tid ↔ ∃ t, w.db.threads.get? tid = some t ∧
      t.status = .busy ∧ ¬ (tid = c.threadId ∧ p t))
    (hdown : (∀ t, w.db.threads.get? c.threadId = some t → p t) ∨ ∃ id, w.db.uses c.threadId id) :
    w.Moves srv (.proceed i env) tid := by
  have hbusy : (f w.db).busy tid → w.db.busy tid := fun hup => by
    obtain ⟨t, ht, hbusy, -⟩ := (hlowers tid).1 hup
    exact ⟨t, ht, hbusy⟩
  have hother : tid ≠ c.threadId → w.db.busy tid → (f w.db).busy tid := fun hne ⟨t, ht, hbusy⟩ =>
    (hlowers tid).2 ⟨t, ht, hbusy, fun h => hne h.1⟩
  have huses : ∀ id, (f w.db).uses tid id ↔ w.db.uses tid id := fun id =>
    Db.uses_congr (by rw [hruns])
  -- the write took effect and the request is through
  have hrelease : w.Advances srv i env c (c.goto next) (f w.db) →
      w.Moves srv (.proceed i env) tid := by
    intro h
    by_cases htid : c.threadId = tid
    · subst htid
      have hs : ((w.step srv (.proceed i env)).lock c.threadId).holders =
          (w.lock c.threadId).holders \ {.inl i} := by
        ext (j | id)
        · rw [inl_mem_holders, h.owns_iff]
          by_cases hj : j = i <;> simp [hj, show (c.goto next).phase.owns = false from hdone]
        · simp [h.db_eq, huses id]
      refine ⟨.release, .release (.inl i) (h.owns_self.2 ⟨rfl, howns⟩) hs ?_, by simp [Allows]⟩
      obtain hdown | ⟨id, hid⟩ := hdown
      · left
        change ¬ (w.step srv _).db.busy _
        rw [h.db_eq, hlowers]
        rintro ⟨t, ht, -, hno⟩
        exact hno ⟨rfl, hdown t ht⟩
      · right
        rw [hs]
        exact ⟨.inr id, hid, by simp⟩
    · exact h.of_same (fun h => absurd h htid) ⟨hbusy, hother (Ne.symm htid)⟩ huses
  obtain ⟨hclean, e, he⟩ | hok | ⟨e, hun, he⟩ := env.write_outcomes (fun db => ((), f db)) w.db
  · cases retried with
    | false => exact moves_unchanged hr (by rw [hnext, he]; rfl) (by rw [howns]; exact hagain)
    | true =>
      have h : w.Advances srv i env c (c.goto next) w.db :=
        ⟨hr, by rw [hnext, he]; rfl⟩
      exact ⟨.leak, .leak h.busy_iff (h.holders_subset (fun _ => howns) fun _ => id),
        by simp [Allows, tidy_of_not_clean hclean]⟩
  · exact hrelease ⟨hr, by rw [hnext, hok]; rfl⟩
  · cases retried with
    | false =>
      have h : w.Advances srv i env c (c.goto again) (f w.db) :=
        ⟨hr, by rw [hnext, he]; rfl⟩
      by_cases hup : w.db.busy tid → (f w.db).busy tid
      · exact h.of_same (fun _ => by rw [howns]; exact hagain) ⟨hbusy, hup⟩ huses
      · refine ⟨.lower, .lower ?_ (holders_eq (h.owns_same fun _ => by rw [howns]; exact hagain)
          fun id => by rw [h.db_eq]; exact huses id),
          by simp [Allows, orderly_of_unacknowledged hr hun]⟩
        exact fun hf => hup fun _ => h.busy_iff.1 hf
    | true => exact hrelease ⟨hr, by rw [hnext, he]; rfl⟩

/-- A failed create sets its thread back to idle. -/
theorem World.moves_unclaim (hw : w.Linked) {response : Response}
    (hphase : c.phase = .unclaim retried response) : w.Moves srv (.proceed i env) tid := by
  obtain ⟨t, ht, hsees⟩ := hw.requests i c hr (by rw [hphase]; rfl)
  have hnext : c.next srv env w.db = c.transition retried (.unclaim true response) (.done response)
      (env.write (fun db => .ok ((), db.setThreadStatus c.ctx c.threadId .idle env.now)) w.db) := by
    simp [next, hphase]
  refine moves_transition hr hnext (by rw [hphase]; rfl) rfl rfl rfl
    (fun _ => Db.busy_setThreadStatus) (.inl fun t' ht' => ?_)
  cases ht.symm.trans ht'
  exact hsees

theorem World.moves_rollbackRelease (hw : w.Linked) (hphase : c.phase = .rollbackRelease retried) :
    w.Moves srv (.proceed i env) tid := by
  obtain ⟨t, ht, hsees⟩ := hw.requests i c hr (by rw [hphase]; rfl)
  have hnext : c.next srv env w.db = c.transition retried (.rollbackRelease true)
      (.done (.error (.message "failed to enqueue run"))) (env.write (fun db => .ok ((),
        (db.releaseThreadIfNoOtherActive c.ctx c.threadId c.runId .idle env.now).2)) w.db) := by
    simp [next, hphase]
  refine moves_transition hr hnext (by rw [hphase]; rfl) rfl rfl rfl
    (fun _ => Db.busy_release) ?_
  cases hother : w.db.otherActive c.threadId c.runId with
  | true =>
    obtain ⟨id, -, hid⟩ := Db.otherActive_iff.1 hother
    exact .inr ⟨id, hid⟩
  | false =>
    refine .inl fun t' ht' => ?_
    cases ht.symm.trans ht'
    exact ⟨rfl, hsees⟩

omit hr in
/-- The status write of a rollback passes the place of the run back to the request, if the run
is still active on the thread. Otherwise the request intrudes. -/
theorem World.moves_rollbackWrite (hphase : c.phase = .rollbackStatus retried)
    (h : w.Advances srv i env c (c.goto (.rollbackRelease false))
      (w.db.updateRunStatus c.ctx c.runId .error none "enqueue failed" env.now)) :
    w.Moves srv (.proceed i env) tid := by
  have hrolls : c.phase.rollsBack := by rw [hphase]; rfl
  have huses : ∀ tid id, (w.db.updateRunStatus c.ctx c.runId .error none "enqueue failed"
      env.now).uses tid id ↔ w.db.uses tid id ∧ ¬ (id = c.runId ∧
        ∃ r, w.db.getRun c.ctx c.runId = some r) := fun tid id => Db.uses_updateRunStatus
  have hbusy : (w.step srv (.proceed i env)).db.busy tid ↔ w.db.busy tid := h.busy_iff
  -- the row the write finds is the one under the id
  have hrow : ∀ {r}, w.db.getRun c.ctx c.runId = some r → ∀ tid,
      w.db.uses tid c.runId ↔ r.threadId = tid ∧ r.status.active := by
    intro r hr tid
    simp [Db.uses, get?_of_getRun hr]
  by_cases hlive : ∃ r, w.db.getRun c.ctx c.runId = some r ∧ w.db.uses c.threadId c.runId
  · obtain ⟨r, hrun, hlive⟩ := hlive
    have hthread := ((hrow hrun _).1 hlive).1
    by_cases htid : c.threadId = tid
    · subst htid
      refine ⟨.pass, .pass (.inr c.runId) (.inl i) hlive hbusy ?_, by simp [Allows]⟩
      ext (j | id)
      · rw [inl_mem_holders, h.owns_iff]
        by_cases hj : j = i <;> simp [hj, goto, Phase.owns]
      · rw [inr_mem_holders, h.db_eq, huses]
        simp [hrun]
    · refine h.of_same (fun h => absurd h htid) .rfl fun id => ?_
      rw [huses, and_iff_left_iff_imp]
      rintro hid ⟨rfl, -⟩
      exact htid (hthread.symm.trans ((hrow hrun _).1 hid).1)
  · by_cases htid : c.threadId = tid
    · subst htid
      refine ⟨.intrude, .intrude (.inl i) hbusy (h.holders_insert rfl rfl fun id => ?_), ?_⟩
      · rw [huses, and_iff_left_iff_imp]
        rintro hid ⟨rfl, r, hr⟩
        exact hlive ⟨r, hr, hid⟩
      · have hno : ((w.db.getRun c.ctx c.runId).any fun r =>
            r.threadId = c.threadId && r.status.active) = false := by
          by_contra hany
          simp only [Bool.not_eq_false, Option.any_eq_true, Bool.and_eq_true,
            decide_eq_true_eq] at hany
          obtain ⟨r, hr, hthread⟩ := hany
          exact hlive ⟨r, hr, (hrow hr _).2 hthread⟩
        simp [Allows, Orderly, h.request, hrolls, hno]
    · by_cases hlost : ∃ r, w.db.getRun c.ctx c.runId = some r ∧ w.db.uses tid c.runId
      · obtain ⟨r, hr, hused⟩ := hlost
        obtain ⟨hthread, hactive⟩ := (hrow hr _).1 hused
        refine ⟨.leak, .leak hbusy ?_, ?_⟩
        · rintro (j | id) hmem
          · exact (h.owns_same (fun h => absurd h htid) j).1 hmem
          · rw [inr_mem_holders, h.db_eq, huses] at hmem
            exact hmem.1
        · have : r.threadId ≠ c.threadId := by rw [hthread]; exact Ne.symm htid
          simp [Allows, Tidy, h.request, hrolls, hr, hactive, this]
      · refine h.of_same (fun h => absurd h htid) .rfl fun id => ?_
        rw [huses, and_iff_left_iff_imp]
        rintro hid ⟨rfl, r, hr⟩
        exact hlost ⟨r, hr, hid⟩

theorem World.moves_rollbackStatus (hphase : c.phase = .rollbackStatus retried) :
    w.Moves srv (.proceed i env) tid := by
  have howns : c.phase.owns = false := by rw [hphase]; rfl
  have hnext : c.next srv env w.db = c.transition retried (.rollbackStatus true)
      (.rollbackRelease false) (env.write (fun db => .ok ((), db.updateRunStatus c.ctx c.runId .error
        none "enqueue failed" env.now)) w.db) := by simp [next, hphase]
  obtain ⟨hclean, e, he⟩ | hok | ⟨e, hun, he⟩ := env.write_outcomes
    (fun db => ((), db.updateRunStatus c.ctx c.runId .error none "enqueue failed" env.now)) w.db
  · cases retried with
    | false => exact moves_unchanged hr (by rw [hnext, he]; rfl) (by rw [howns]; rfl)
    | true =>
      have h : w.Advances srv i env c (c.goto (.rollbackRelease false)) w.db :=
        ⟨hr, by rw [hnext, he]; rfl⟩
      by_cases htid : c.threadId = tid
      · exact ⟨.intrude, .intrude (.inl i) h.busy_iff (h.holders_insert htid rfl fun _ => .rfl),
          by simp [Allows, Orderly, hr, hphase, Phase.rollsBack, hclean]⟩
      · exact h.of_same (fun h => absurd h htid) .rfl fun _ => .rfl
  · exact moves_rollbackWrite hphase ⟨hr, by rw [hnext, hok]; rfl⟩
  · cases retried with
    | false =>
      have h : w.Advances srv i env c (c.goto (.rollbackStatus true))
          (w.db.updateRunStatus c.ctx c.runId .error none "enqueue failed" env.now) :=
        ⟨hr, by rw [hnext, he]; rfl⟩
      exact ⟨.leak, .leak h.busy_iff (h.holders_subset (fun h => by cases h) fun id hid =>
        (Db.uses_updateRunStatus.1 hid).1),
        by simp [Allows, tidy_of_not_clean (clean_of_unacknowledged hun)]⟩
    | true => exact moves_rollbackWrite hphase ⟨hr, by rw [hnext, he]; rfl⟩

theorem World.moves_createThread (hphase : c.phase = .createThread) :
    w.Moves srv (.proceed i env) tid := by
  obtain ⟨c', h, howns⟩ : ∃ c', w.Advances srv i env c c'
      (env.write (insertThread c.newThread) w.db).2 ∧ c'.phase.owns = c.phase.owns := by
    rcases hwrite : env.write (insertThread c.newThread) w.db with ⟨e | u, _⟩
    · exact ⟨c.goto (.regetThread e), ⟨hr, by simp [next, hphase, hwrite]⟩, by
        rw [hphase]; rfl⟩
    · exact ⟨c.goto .cached, ⟨hr, by simp [next, hphase, hwrite]⟩, by rw [hphase]; rfl⟩
  obtain heq | ⟨threads, hins, heq⟩ := env.write_insertThread c.newThread w.db
  · rw [heq] at h
    exact h.of_same (fun _ => howns) .rfl fun _ => .rfl
  · rw [heq] at h
    refine .of_insertThread (h.owns_same fun _ => howns) hins h.db_eq fun hbusy => ?_
    simp [newThread] at hbusy

theorem World.moves_cached (hphase : c.phase = .cached) : w.Moves srv (.proceed i env) tid := by
  obtain ⟨c', db', h, howns, hdb⟩ : ∃ c' db', w.Advances srv i env c c' db' ∧
      c'.phase.owns = c.phase.owns ∧ (db' = w.db ∨ ∃ output, db' = (createCachedRun srv.dialect c.ctx
        (c.cachedRun env output) env.caps env.now env.driver w.db).2) := by
    have hnext : c.next srv env w.db = c.tryServeCached srv env w.db := by simp [next, hphase]
    refine ⟨(c.tryServeCached srv env w.db).1, (c.tryServeCached srv env w.db).2, ⟨hr, hnext⟩,
      ?_, ?_⟩
    · rw [hphase]
      unfold tryServeCached
      split
      · split <;> rfl
      · rfl
    · unfold tryServeCached
      split
      · rename_i output _ _
        refine .inr ⟨output, ?_⟩
        split <;> rename_i heq <;> rw [heq]
      · exact .inl rfl
  obtain rfl | ⟨output, rfl⟩ := hdb
  · exact h.of_same (fun _ => howns) .rfl fun _ => .rfl
  obtain he | ⟨⟨t, ht, hidle⟩, huses, hothers, hmine, -⟩ :=
    lock_createCachedRun srv.dialect env c.ctx (c.cachedRun env output) w.db rfl
  · rw [he] at h
    exact h.of_same (fun _ => howns) .rfl fun _ => .rfl
  generalize (createCachedRun srv.dialect c.ctx (c.cachedRun env output) env.caps env.now env.driver
    w.db).2 = db' at h huses hothers hmine
  by_cases htid : tid = c.threadId
  · subst htid
    have hdown : ¬ w.db.busy c.threadId := by
      rintro ⟨t', ht', hbusy⟩
      exact hidle (Option.mem_unique ht' ht ▸ hbusy)
    refine ⟨.stay, .stay ?_ (holders_eq (h.owns_same fun _ => howns) fun id => by
      rw [h.db_eq]; exact huses _ id), by simp [Allows]⟩
    change ((w.step srv _).db.busy _ ↔ w.db.busy _) ∨ (w.step srv _).db.busy _ ∧ _
    rw [h.db_eq]
    by_cases hup : db'.busy c.threadId
    · -- the flag stays up only for another run on the thread
      obtain ⟨id, -, hid⟩ := hmine.resolve_left (not_not_intro hup)
      exact .inr ⟨hup, .inr id, hid⟩
    · exact .inl (iff_of_false hup hdown)
  · exact h.of_same (fun _ => howns) (hothers tid htid) (huses tid)

/-- The moves that a create request makes. -/
theorem World.moves_create (hw : w.Linked) : w.Moves srv (.proceed i env) tid := by
  cases hphase : c.phase with
  | createThread => exact moves_createThread hr hphase
  | cached => exact moves_cached hr hphase
  | claim => exact moves_claim hr hphase
  | insert => exact moves_insert hr hphase
  | unclaim => exact moves_unclaim hr hw hphase
  | rollbackStatus => exact moves_rollbackStatus hr hphase
  | rollbackRelease => exact moves_rollbackRelease hr hw hphase
  | _ =>
    obtain ⟨hdb, howns⟩ := next_of_not_writes srv env w.db (c := c) (by rw [hphase]; rfl)
    exact moves_unchanged hr (Prod.ext rfl hdb) howns

end

/-! ## All steps -/

/-- A request that arrives holds nothing. -/
theorem World.moves_accept {ev : Event} {r : Request} (hstep : w.step srv ev = w.accept r)
    (h : ∀ c, r = .create c → c.phase.owns = false) : w.Moves srv ev tid :=
  .of_same (fun j => by rw [hstep]; exact owns_accept h j) (by rw [hstep]; rfl)
    fun id => by rw [hstep]; rfl

theorem World.moves_proceed (hw : w.Linked) (i : ℕ) (env : Env) :
    w.Moves srv (.proceed i env) tid := by
  cases hr : w.requests[i]? with
  | none =>
    have hsame : w.step srv (.proceed i env) = w := by simp [step, hr]
    exact .of_same (fun j => by rw [hsame]) (by rw [hsame]) fun id => by rw [hsame]
  | some r =>
    have hdb : (w.step srv (.proceed i env)).db = (r.next srv env w.db).2 := by simp [step, hr]
    have hsame : (∀ c, r ≠ .create c) → (r.next srv env w.db).2 = w.db →
        w.Moves srv (.proceed i env) tid := fun hne heq =>
      .of_same (owns_proceed hr hne) (by rw [hdb, heq]) fun id => by rw [hdb, heq]
    cases r with
    | create => exact moves_create hr hw
    | delete d =>
      obtain heq | ⟨hphase, heq⟩ := d.next_snd env w.db
      · exact hsame (by simp) heq
      · refine .of_deleteRun (owns_proceed hr (by simp)) (hdb.trans heq) fun hin => ?_
        obtain ⟨ctx, runId, phase⟩ := d
        simp only at hphase
        subst hphase
        simp [Tidy, hr, hin]
    | cancel c =>
      obtain heq | ⟨-, run, -, heq⟩ | ⟨hphase, heq⟩ := c.next_snd srv env w.db
      · exact hsame (by simp) heq
      · exact .of_completeRun (owns_proceed hr (by simp)) hw (hdb.trans heq)
      · refine .of_deleteRun (owns_proceed hr (by simp)) (hdb.trans heq) fun hin => ?_
        obtain ⟨ctx, _, _, phase⟩ := c
        simp only at hphase
        subst hphase
        simp [Tidy, hr, hin]
    | copy c =>
      obtain heq | ⟨t, threads, hphase, hins, heq⟩ := c.next_snd env w.db
      · exact hsame (by simp) heq
      · refine .of_insertThread (owns_proceed hr (by simp)) hins (hdb.trans heq) fun hbusy => ?_
        obtain ⟨_, _, _, _⟩ := c
        simp only at hphase
        subst hphase
        simp [Tidy, hr, hbusy]

/-- Each step moves the lock of a thread, and breaks a rule only where it is not orderly, or
not tidy. -/
theorem World.step_lock (hw : w.Linked) (ev : Event) : w.Moves srv ev tid := by
  cases ev with
  | create =>
    exact World.moves_accept rfl fun c hc => by
      cases hc
      rfl
  | delete | cancel | copy => exact World.moves_accept rfl fun c hc => nomatch hc
  | proceed i env => exact World.moves_proceed hw i env
  | beginRunAttempt runId generation env =>
    refine .of_same (fun _ => .rfl) (Db.busy_congr ?_) fun id => Db.uses_beginRunAttempt
    obtain heq | ⟨_, _, raw, -, -, -, -, -, hdb⟩ :=
      beginRunAttempt_cases { system := true } env.now env.driver w.db runId generation
    · simp [World.step, heq]
    · simp [World.step, hdb, Db.updateRuns_threads]
  | completeRun ctx c env =>
    have hdb : (w.step srv (.completeRun ctx c env)).db =
        (completeRun srv.dialect ctx c env.now env.driver w.db).2 := by simp [World.step]
    exact .of_completeRun (fun _ => .rfl) hw hdb
  | queue step =>
    have hdb : (w.step srv (.queue step)).db = w.db := by simp [World.step]
    have hreq : (w.step srv (.queue step)).requests = w.requests := by simp [World.step]
    exact .of_same (fun j => by simp [World.owns, hreq]) (by rw [hdb]) fun id => by rw [hdb]
  | pruneRuns =>
    refine .of_same (fun _ => .rfl) .rfl fun id => ?_
    refine Db.uses_delete.trans ⟨?_, ?_⟩
    · rintro ⟨r, hr, hthread, hactive, -⟩
      exact ⟨r, hr, hthread, hactive⟩
    · rintro ⟨r, hr, hthread, hactive⟩
      have : r.status.terminal = false := by simpa [RunStatus.active_eq] using hactive
      exact ⟨r, hr, hthread, hactive, by simp [this]⟩

/-! ## Whole runs -/

theorem World.linked_initial : ({} : World).Linked where
  runs := by
    intro id r hr
    cases hr
  requests := by
    intro i c hr
    simp at hr

theorem World.not_owns_of_answered (h : ∀ r ∈ w.requests, r.answered) (i : ℕ) :
    ¬ w.owns tid i := by
  rintro ⟨c, hr, -, howns⟩
  have hdone := h _ (List.mem_of_getElem? hr)
  simp only [Request.answered] at hdone
  split at hdone
  · rename_i response hphase
    simp [hphase, Phase.owns] at howns
  · cases hdone

theorem World.step_exclusive (ev : Event) (hev : Orderly ev w)
    (h : w.Linked ∧ ∀ tid, (w.lock tid).Exclusive) :
    (w.step srv ev).Linked ∧ ∀ tid, ((w.step srv ev).lock tid).Exclusive := by
  refine ⟨h.1.step ev, fun tid => ?_⟩
  obtain ⟨k, hmove, hbreaks, -⟩ : w.Moves srv ev tid := step_lock h.1 ev
  refine (h.2 tid).move hmove ?_ ?_
  · rintro rfl
    simp [hbreaks (.inl rfl)] at hev
  · rintro rfl
    simp [hbreaks (.inr rfl)] at hev

theorem World.step_accounted (ev : Event) (hev : Tidy ev w)
    (h : w.Linked ∧ ∀ tid, (w.lock tid).Accounted) :
    (w.step srv ev).Linked ∧ ∀ tid, ((w.step srv ev).lock tid).Accounted := by
  refine ⟨h.1.step ev, fun tid => ?_⟩
  obtain ⟨k, hmove, -, hbreaks⟩ : w.Moves srv ev tid := step_lock h.1 ev
  refine (h.2 tid).move hmove ?_ ?_
  · rintro rfl
    simp [hbreaks (.inl rfl)] at hev
  · rintro rfl
    simp [hbreaks (.inr rfl)] at hev

/-- In every run of orderly steps, at most one run of a thread is pending or running. -/
theorem thread_exclusive (srv : Server) (evs : List Event)
    (horderly : Trace.Every (World.step srv) (fun ev w => Orderly ev w = true) evs {})
    (threadId : String) :
    {runId | (Trace.run (World.step srv) evs {}).db.uses threadId runId}.Subsingleton := by
  have hinitial : ∀ tid, (({} : World).lock tid).Exclusive := by
    intro tid
    have hempty : ∀ k, k ∉ (({} : World).lock tid).holders := by
      rintro (j | id)
      · exact not_owns_of_answered (by simp) j
      · rintro ⟨r, hr, -⟩
        cases hr
    exact ⟨fun k hk => absurd hk (hempty k), fun k hk => absurd hk (hempty k)⟩
  have hfinal := Trace.invariant (fun ev w => step_exclusive ev) horderly
    ⟨linked_initial, hinitial⟩
  intro id hid id' hid'
  exact Sum.inr_injective ((hfinal.2 threadId).subsingleton hid hid')

/-- A create request for a run on the thread `t`, at place `i`, up to and including its claim
of the thread, which exists. -/
def claims (i : ℕ) (runId : String) : List Event :=
  .create {} { runId := runId, threadId := "t", agentId := "a" } "" "" "" ::
    List.replicate 5 (.proceed i {})

/-- Two create requests for the same thread : the second finds it busy until the run of the
first is completed. -/
theorem thread_exclusive_two_creates :
    let evs := .create {} { runId := "r", threadId := "t", agentId := "a" } "" "" "" ::
      List.replicate 8 (.proceed 0 {}) ++ claims 1 "s" ++
      [.completeRun {} { runId := "r", generation := 0, status := .success } {}] ++
      claims 2 "s" ++ [.proceed 2 {}]
    (Trace.run (World.step {}) evs {}).db.uses "t" "s" ∧
      {runId | (Trace.run (World.step {}) evs {}).db.uses "t" runId}.Subsingleton := by
  intro evs
  exact ⟨by decide +kernel, thread_exclusive {} evs (by decide +kernel) "t"⟩

/-- The run `r0` cannot be enqueued, and is canceled before its request rolls it back. Then the
thread is free, and `ra` claims it. -/
def canceledBeforeRollback : List Event :=
  .create {} { runId := "r0", threadId := "t", agentId := "a" } "" "" "" ::
    List.replicate 7 (.proceed 0 {}) ++ [.proceed 0 { enqueue := .failed },
    .cancel {} "r0" false, .proceed 1 {}, .proceed 1 {}] ++ claims 2 "ra"

/-- The rollback of `r0` releases the thread under `ra`, `rb` claims it, and both insert their
run. -/
theorem rollback_admits_second_run :
    let w := Trace.run (World.step {}) (canceledBeforeRollback ++ [.proceed 0 {}, .proceed 0 {}] ++
      claims 3 "rb" ++ [.proceed 3 {}, .proceed 2 {}]) {}
    w.db.uses "t" "ra" ∧ w.db.uses "t" "rb" := by decide +kernel

/-- In every run of tidy steps, once all requests are answered, a busy thread has an active
run, and any other thread can be claimed. -/
theorem thread_not_stuck (srv : Server) (evs : List Event)
    (htidy : Trace.Every (World.step srv) (fun ev w => Tidy ev w = true) evs {})
    (hanswered : ∀ r ∈ (Trace.run (World.step srv) evs {}).requests, r.answered = true)
    (threadId : String) :
    let db := (Trace.run (World.step srv) evs {}).db
    (db.busy threadId → ∃ runId, db.uses threadId runId) ∧
    ∀ ctx t now, db.threads.get? threadId = some t → ctx.sees t.tenantId = true →
      (∀ runId, ¬ db.uses threadId runId) → (db.tryClaimThread ctx threadId now).1 = true := by
  have hinitial : ∀ tid, (({} : World).lock tid).Accounted := by
    rintro tid ⟨t, ht, -⟩
    cases ht
  have hfinal := Trace.invariant (fun ev w => step_accounted ev) htidy
    ⟨linked_initial, hinitial⟩
  intro db
  have hrun : db.busy threadId → ∃ runId, db.uses threadId runId := by
    intro hbusy
    obtain ⟨i | id, hk⟩ := hfinal.2 threadId hbusy
    · exact absurd hk (not_owns_of_answered hanswered i)
    · exact ⟨id, hk⟩
  refine ⟨hrun, fun ctx t now ht hsees hfree => Db.tryClaimThread_fst.2 ⟨t, ht, ?_, hsees⟩⟩
  intro hbusy
  obtain ⟨id, hid⟩ := hrun ⟨t, ht, hbusy⟩
  exact hfree id hid

/-- A run that is created and canceled with a rollback, which leaves its thread free. -/
theorem thread_not_stuck_canceled :
    let evs := .create {} { runId := "r", threadId := "t", agentId := "a" } "" "" "" ::
      List.replicate 8 (.proceed 0 {}) ++ .cancel {} "r" true :: List.replicate 4 (.proceed 1 {})
    let db := (Trace.run (World.step {}) evs {}).db
    db.runs.get? "r" = none ∧ (db.threads.get? "t").map Thread.status = some .interrupted ∧
      (db.busy "t" → ∃ runId, db.uses "t" runId) ∧
      ∀ ctx t now, db.threads.get? "t" = some t → ctx.sees t.tenantId = true →
        (∀ runId, ¬ db.uses "t" runId) → (db.tryClaimThread ctx "t" now).1 = true := by
  intro evs db
  have hnone : (db.runs.get? "r").isNone := by decide +kernel
  exact ⟨Option.isNone_iff_eq_none.1 hnone, by decide +kernel,
    thread_not_stuck {} evs (by decide +kernel) (by decide +kernel) "t"⟩

/-- The copy of a busy thread stays busy and never had a run. -/
theorem copied_thread_stuck :
    let w := Trace.run (World.step {})
      (.create {} { runId := "r", threadId := "t", agentId := "a" } "" "" "" ::
        List.replicate 8 (.proceed 0 {}) ++ [.copy {} "t" "copy", .proceed 1 {}, .proceed 1 {},
        .completeRun {} { runId := "r", generation := 0, status := .success } {}]) {}
    (∀ r ∈ w.requests, r.answered = true) ∧ w.db.busy "copy" ∧
      (∀ r ∈ w.db.runs.rows, r.threadId ≠ "copy") ∧
      (w.db.tryClaimThread {} "copy" "").1 = false := by decide +kernel

end Runkite
