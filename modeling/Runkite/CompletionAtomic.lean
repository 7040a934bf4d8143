import Runkite.Admission

/-!
# A completion is all or nothing

`StoresResult` is what a result should leave behind : the thread's values overridden key by
key, a checkpoint of exactly those values, one more version, and the run's own result as its
output. `completeRun_atomic` says that a `CompleteRun` transaction leaves either the
state it found or a state in which the result is stored, at whatever statement it fails, and that
neither a completion without values nor a cancellation of the current attempt touches values
or checkpoints; `createCachedRun_atomic` says the same of the transaction that creates a run
already completed, whose pending row is never durable.
-/

open Json (Members Number Text marshal)
open Transaction (Body Driver transact)

namespace Runkite

/-- A result of the run is durable in `db'`, which was `db` before. -/
def StoresResult (runId threadId : String) (values : Members Number) (db db' : Db) : Prop :=
  ∃ t t' old r' checkpoint raw,
    db.threads.get? threadId = some t ∧ decodeValues t.values = some old ∧
    db'.threads.get? threadId = some t' ∧ t'.version = t.version + 1 ∧
    (∀ k, t'.values.member k = ((values.lookup k).or (old.lookup k)).bind Json.encode) ∧
    db.checkpoints.get? ("completion:" ++ runId) = none ∧
    db'.checkpoints.get? ("completion:" ++ runId) = some checkpoint ∧
    checkpoint.threadId = threadId ∧ checkpoint.values = t'.values ∧
    db'.runs.get? runId = some r' ∧ r'.threadId = threadId ∧
    marshal (.object values) = some raw ∧ r'.output = some raw

/-- No thread's values or version and no checkpoint differ. -/
def KeepsHistory (db db' : Db) : Prop :=
  db'.checkpoints = db.checkpoints ∧
    ∀ k, (db'.threads.get? k).map (fun t => (t.values, t.version)) =
      (db.threads.get? k).map fun t => (t.values, t.version)

theorem KeepsHistory.refl (db : Db) : KeepsHistory db db := ⟨rfl, fun _ => rfl⟩

theorem keepsHistory_updateThreads (db : Db) (p : Thread → Bool) (f : Thread → Thread)
    (hf : ∀ t, (f t).threadId = t.threadId)
    (hkeep : ∀ t, ((f t).values, (f t).version) = (t.values, t.version)) :
    KeepsHistory db (db.updateThreads p f hf) := by
  refine ⟨rfl, fun k => ?_⟩
  rw [Db.get?_updateThreads, Option.map_map]
  congr 1
  funext t
  simp only [Function.comp]
  split_ifs
  · exact hkeep t
  · rfl

variable {values : Members Number}

/-- What happened before a result is stored does not matter if it kept history. -/
theorem KeepsHistory.storesResult {runId threadId : String}
    {db mid db' : Db} (hkeep : KeepsHistory db mid)
    (h : StoresResult runId threadId values mid db') :
    StoresResult runId threadId values db db' := by
  obtain ⟨t, t', old, r', checkpoint, raw, hget, hold, ht', hver, hvals, hnone, hck⟩ := h
  obtain ⟨t₀, hget₀, heq⟩ : ∃ t₀, db.threads.get? threadId = some t₀ ∧
      (t₀.values, t₀.version) = (t.values, t.version) := by
    have := hkeep.2 threadId
    rw [hget] at this
    exact Option.map_eq_some_iff.1 this.symm
  obtain ⟨hv, hversion⟩ := Prod.mk.inj heq
  exact ⟨t₀, t', old, r', checkpoint, raw, hget₀, hv ▸ hold, ht', hversion ▸ hver, hvals,
    hkeep.1 ▸ hnone, hck⟩

section Effects

variable {l : Loaded} {c : RunCompletion} {now : String} {db db' mid : Db}

theorem decodeValues_distinct {t : Text} {m : Members Number} (h : decodeValues t = some m) :
    m.Distinct := by
  rcases t with _ | _ | v
  · cases h
    exact List.nodup_nil
  · simp [decodeValues, Json.unmarshalMap] at h
  · obtain ⟨_ | _, hm', rfl⟩ := Option.map_eq_some_iff.1 h
    · exact List.nodup_nil
    · exact Json.distinct_of_unmarshalMap hm'

/-- The release touches no values, no version and no checkpoint. -/
theorem releaseCompleted_keeps (db : Db) (l : Loaded) (c : RunCompletion) (now : String) :
    KeepsHistory db (db.releaseCompleted l c now) := by
  unfold Db.releaseCompleted
  split_ifs
  · exact keepsHistory_updateThreads db _ _ _ fun _ => rfl
  · exact KeepsHistory.refl db

/-- A completion without values to merge keeps history. -/
theorem Completed.keepsHistory (h : Completed l c now db db')
    (hno : c.values = none ∨ c.cancelCurrentAttempt) : KeepsHistory db db' := by
  obtain ⟨rawMeta, output, mid, -, -, hmerge, -, rfl⟩ := h
  obtain rfl : mid = db := by
    unfold Merged at hmerge
    split at hmerge
    · rename_i values hv hc
      simp [hv, hc] at hno
    · exact hmerge
  exact releaseCompleted_keeps _ l c now

/-- A completion with values stores them. -/
theorem Completed.storesResult {r : Run} (h : Completed l c now db db')
    (hr : db.runs.get? c.runId = some r) (ht : l.tenantId = r.tenantId)
    (hth : l.threadId = r.threadId) (hv : c.values = some values)
    (hc : c.cancelCurrentAttempt = false) : StoresResult c.runId r.threadId values db db' := by
  obtain ⟨_, output, -, hout, hrow⟩ := h.get?_runs hr ht
  obtain ⟨_, _, _, -, -, hmerge, -, hdb'⟩ := h
  simp only [Merged, hv, hc] at hmerge
  obtain ⟨t, old, raw, parent, _, hsel, hold, hraw, hins, rfl⟩ := hmerge
  obtain ⟨hget, -⟩ := get?_of_select_ownThread hsel
  obtain ⟨hnone, -⟩ := Table.rows_of_insert hins
  rw [hth] at hget hsel
  obtain ⟨out, hout', rfl⟩ : ∃ out, marshal (.object values) = some out ∧ output = some out := by
    rcases output with _ | out
    · simp [hv] at hout
    · exact ⟨out, by simpa [hv] using hout, rfl⟩
  obtain ⟨hkeep, hthreads⟩ := hdb' ▸ releaseCompleted_keeps _ l c now
  obtain ⟨t', ht', hvals⟩ : ∃ t' : Thread, db'.threads.get? r.threadId = some t' ∧
      (t'.values, t'.version) = (raw, t.version + 1) := by
    refine Option.map_eq_some_iff.1 ((hthreads r.threadId).trans ?_)
    have hown : ownThread l.threadId l.tenantId t := by
      rw [hth]
      exact List.find?_some hsel
    simp [Db.completeRow, Db.get?_updateThreads, hget, hown]
  simp only [Prod.mk.injEq] at hvals
  refine ⟨t, t', old, _, completionCheckpoint l c.runId parent raw now, out, hget, hold, ht',
    hvals.2, fun k => ?_, hnone, ?_, hth, hvals.1.symm, hrow, rfl, hout', rfl⟩
  · rw [hvals.1, Json.member_marshal ((decodeValues_distinct hold).override values) hraw,
      Members.lookup_override]
  · rw [hkeep]
    simp [Db.completeRow, Db.updateRuns, Table.get?_of_insert hins, completionCheckpoint]

end Effects

variable {d : Dialect} {ctx : Ctx} {now : String} {driver : Driver StoreError} {db : Db}
  {c : RunCompletion}

theorem resolveCompletion_of_not_cancel (h : c.cancelCurrentAttempt = false)
    (m : Members Number) : resolveCompletion m c = c := by simp [resolveCompletion, h]

@[simp] theorem resolveCompletion_cancel (m : Members Number) (c : RunCompletion) :
    (resolveCompletion m c).cancelCurrentAttempt = c.cancelCurrentAttempt := by
  unfold resolveCompletion
  split_ifs <;> rfl

theorem completeRun_keepsHistory (hno : c.values = none ∨ c.cancelCurrentAttempt) :
    KeepsHistory db (completeRun d ctx c now driver db).2 := by
  rcases completeRun_cases d ctx now driver db c with ⟨-, heq⟩ | ⟨-, r, l, -, -, -, hcomp⟩
  · rw [heq]
    exact KeepsHistory.refl db
  · refine hcomp.keepsHistory ?_
    rcases hcancel : c.cancelCurrentAttempt with _ | _
    · rw [resolveCompletion_of_not_cancel hcancel]
      simpa [hcancel] using hno
    · exact .inr (by simp [hcancel])

theorem completeRun_applied
    {result : CompletionResult} (hv : c.values = some values) (hc : c.cancelCurrentAttempt = false)
    (hres : (completeRun d ctx c now driver db).1 = .ok result) (happ : result.applied) :
    ∃ r, db.runs.get? c.runId = some r ∧
      StoresResult c.runId r.threadId values db (completeRun d ctx c now driver db).2 := by
  obtain ⟨_, hrun, hdb'⟩ := Transaction.transact_ok hres
  rw [if_pos happ] at hdb'
  obtain ⟨r, l, hr, hl, -, h⟩ := run_completeRunInTx_ok hrun
  obtain ⟨-, ht, hth, -⟩ := loaded_ok_iff.1 hl
  rcases h with ⟨h, -⟩ | ⟨-, hcomp⟩
  · simp [h] at happ
  · rw [resolveCompletion_of_not_cancel hc] at hcomp
    have hget := get?_of_getRun hr
    exact ⟨r, hget, hdb' ▸ hcomp.storesResult hget ht hth hv hc⟩

theorem storesResult_of_cached {run pending : NewRun} {l : Loaded}
    {runs : Table Run String Run.runId} {db' : Db} (hprep : prepareCachedRun run = .ok (pending, c))
    (hins : db.runs.insert (pending.row ctx.tenant) = some runs)
    (hl : (pending.row ctx.tenant).loaded = .ok l)
    (hcomp : Completed l (resolveCompletion l.metadata c) now (db.created ctx pending true runs) db') :
    ∃ values, Json.unmarshalMap Json.decodeNumber run.output = some (some values) ∧
      StoresResult run.runId run.threadId values db db' ∧
      ∃ r, db'.runs.get? run.runId = some r ∧ r.status = .success := by
  obtain ⟨hrunId, hthreadId, hcrun, -, hst, hcancel, values, hvalues, hval⟩ :=
    prepareCachedRun_ok hprep
  obtain ⟨-, ht, hth, -⟩ := loaded_ok_iff.1 hl
  rw [resolveCompletion_of_not_cancel hcancel] at hcomp
  have hget : (db.created ctx pending true runs).runs.get? c.runId = some (pending.row ctx.tenant) := by
    rw [hcrun, ← hrunId]
    exact get?_created hins
  obtain ⟨_, _, -, -, hrow⟩ := hcomp.get?_runs hget ht
  have hstored := hcomp.storesResult hget ht hth hvalues hcancel
  have hkeep : KeepsHistory db (db.created ctx pending true runs) :=
    keepsHistory_updateThreads db (ownThread pending.threadId ctx.tenant)
      (fun t => { t with status := .busy }) (fun _ => rfl) fun _ => rfl
  rw [hcrun] at hstored hrow
  exact ⟨values, hval, hthreadId ▸ hkeep.storesResult hstored, _, hrow, hst⟩

variable (d ctx now driver db) in
theorem createCachedRun_stores (run : NewRun) (caps : Option RunAdmissionCaps) :
    (∃ e, createCachedRun d ctx run caps now driver db = (.error e, db)) ∨
    ∃ values, Json.unmarshalMap Json.decodeNumber run.output = some (some values) ∧
      StoresResult run.runId run.threadId values db
        (createCachedRun d ctx run caps now driver db).2 ∧
      ∃ r, (createCachedRun d ctx run caps now driver db).2.runs.get? run.runId = some r ∧
        r.status = .success := by
  obtain he | ⟨pending, c, t, runs, l, hprep, -, -, hins, hl, hcomp⟩ :=
    createCachedRun_cases ctx run caps driver db d now
  · exact .inl he
  · exact .inr (storesResult_of_cached hprep hins hl hcomp)

/-- Completion is all or nothing, for every run, thread, result and failure : something
failing changes nothing, a result that is applied is stored as a whole, and a completion
without values or of the current attempt keeps values and checkpoints. A cached creation
behaves the same way, and the row it leaves is not the pending one. -/
theorem completion_all_or_nothing (d : Dialect) (ctx : Ctx) (now : String)
    (driver : Driver StoreError) (db : Db) : (∀ c : RunCompletion,
      let done := completeRun d ctx c now driver db
      (Transaction.Fails (completeRunInTx d ctx c now) driver db → done.2 = db) ∧
      (∀ values, c.values = some values → c.cancelCurrentAttempt = false →
        (done.2 = db ∨ ∃ r, db.runs.get? c.runId = some r ∧
          StoresResult c.runId r.threadId values db done.2) ∧
        ∀ result, done.1 = .ok result → result.applied = true →
          ∃ r, db.runs.get? c.runId = some r ∧
            StoresResult c.runId r.threadId values db done.2) ∧
      (c.values = none ∨ c.cancelCurrentAttempt = true → KeepsHistory db done.2)) ∧
    ∀ (run : NewRun) (caps : Option RunAdmissionCaps),
      let done := createCachedRun d ctx run caps now driver db
      (∀ pending c, prepareCachedRun run = .ok (pending, c) →
        Transaction.Fails (createCachedRunBody d ctx pending c caps now) driver db →
          done.2 = db) ∧
      (done.2 = db ∨ ∃ values,
        Json.unmarshalMap Json.decodeNumber run.output = some (some values) ∧
          StoresResult run.runId run.threadId values db done.2) ∧
      (done.1 = .ok () → ∃ values,
        Json.unmarshalMap Json.decodeNumber run.output = some (some values) ∧
          StoresResult run.runId run.threadId values db done.2) ∧
      ∀ r, done.2.runs.get? run.runId = some r →
        db.runs.get? run.runId = some r ∨ r.status = .success := by
  refine ⟨fun c => ⟨Transaction.transact_of_fails _, fun values hv hc =>
    ⟨?_, fun result hres happ => completeRun_applied hv hc hres happ⟩,
    completeRun_keepsHistory⟩, fun run caps => ⟨?_, ?_, fun hok => ?_, ?_⟩⟩
  · rcases completeRun_cases d ctx now driver db c with ⟨-, heq⟩ | ⟨-, r, l, hr, hl, -, hcomp⟩
    · exact .inl heq
    · obtain ⟨-, ht, hth, -⟩ := loaded_ok_iff.1 hl
      rw [resolveCompletion_of_not_cancel hc] at hcomp
      exact .inr ⟨r, hr, hcomp.storesResult hr ht hth hv hc⟩
  · intro pending c hprep hfails
    simp only [createCachedRun, hprep]
    exact Transaction.transact_of_fails _ hfails
  · obtain ⟨e, heq⟩ | ⟨values, hval, hstored, -⟩ :=
      createCachedRun_stores d ctx now driver db run caps
    · exact .inl (by rw [heq])
    · exact .inr ⟨values, hval, hstored⟩
  · obtain ⟨e, heq⟩ | ⟨values, hval, hstored, -⟩ :=
      createCachedRun_stores d ctx now driver db run caps
    · cases (congrArg Prod.fst heq).symm.trans hok
    · exact ⟨values, hval, hstored⟩
  · intro r hr
    obtain ⟨e, heq⟩ | ⟨-, -, -, _, hr', hst⟩ := createCachedRun_stores d ctx now driver db run caps
    · exact .inl (by rwa [heq] at hr)
    · cases hr'.symm.trans hr
      exact .inr hst

/-- A pending run of a busy thread, completed with a result. -/
theorem completion_all_or_nothing_stores :
    let db := Db.single { Thread.fresh "t" with status := .busy } (Run.fresh "r" "t")
    let values : Members Number := [("answer", .number (.literal ⟨42, 0⟩))]
    let c : RunCompletion :=
      { runId := "r", generation := 0, status := .success, values := some values }
    (completeRun {} {} c "" (Driver.sound StoreError) db).1 = .ok ⟨true, true⟩ ∧
      ∃ r, db.runs.get? "r" = some r ∧ StoresResult "r" r.threadId values db
        (completeRun {} {} c "" (Driver.sound StoreError) db).2 := by
  intro db values c
  have hres : (completeRun {} {} c "" (Driver.sound StoreError) db).1 = .ok ⟨true, true⟩ := by rfl
  exact ⟨hres, (((completion_all_or_nothing {} {} "" (Driver.sound StoreError) db).1 c).2.1
    values rfl rfl).2 _ hres rfl⟩

end Runkite
