import Runkite.IdempotentCreate

/-!
# Cancelling the runs that a search found

A kill switch and the cancellation of a run both list runs with `SearchRuns` and cancel them one by
one with `cancelRunSingle`, while requests, runners and other replicas go on. The list is as old as
its query, so what is known of a listed run is only what no step in between can undo : a run that is
terminal stays so (`RowStep.of_open`), and a cancellation that returned without an error left its run
terminal (`Cancellation.Closes.next`).

The store refuses to complete a run that carries a completion generation. Runs that are not terminal
carry none (`Run.Sealed`), since the server builds the metadata of the runs that it inserts.
-/

open Json (Members Number Text marshal unmarshalMap)

namespace Runkite

/-! ## Searching -/

/-- The conditions of `RunSearchRequest` that its callers here set; an empty text is none. -/
structure RunSearch where
  status : Option RunStatus := none
  agentId : String := ""
  rootRunId : String := ""
  limit : ℕ

/-- The `WHERE` clause of `SearchRuns`. -/
def RunSearch.accepts (q : RunSearch) (ctx : Ctx) (r : Run) : Bool :=
  ctx.sees r.tenantId && q.status.all (fun status => r.status = status) &&
    (q.agentId = "" || r.agentId = q.agentId) &&
    (q.rootRunId = "" || r.rootRunId = some q.rootRunId)

/-- `ORDER BY created_at DESC, run_id DESC`. -/
def Run.before (a b : Run) : Bool :=
  b.createdAt < a.createdAt || a.createdAt = b.createdAt && b.runId ≤ a.runId

/-- `SearchRuns` from the first row on. -/
def searchRuns (ctx : Ctx) (q : RunSearch) (db : Db) : List Run :=
  ((db.runs.rows.filter (q.accepts ctx)).insertionSort fun a b => a.before b = true).take q.limit

variable {ctx : Ctx} {q : RunSearch} {db : Db} {r : Run}

theorem perm_searched (ctx : Ctx) (q : RunSearch) (db : Db) :
    ((db.runs.rows.filter (q.accepts ctx)).insertionSort fun a b => a.before b).Perm
      (db.runs.rows.filter (q.accepts ctx)) :=
  List.perm_insertionSort _ _

theorem of_mem_searchRuns (h : r ∈ searchRuns ctx q db) :
    db.runs.get? r.runId = some r ∧ q.accepts ctx r := by
  have hmem := (perm_searched ctx q db).mem_iff.1 (List.mem_of_mem_take h)
  obtain ⟨hrow, haccepts⟩ := List.mem_filter.1 hmem
  exact ⟨Table.mem_iff_get?.1 hrow, haccepts⟩

/-- A page that is not full has every row. -/
theorem mem_searchRuns (hlt : (searchRuns ctx q db).length < q.limit)
    (hr : db.runs.get? r.runId = some r) (h : q.accepts ctx r) : r ∈ searchRuns ctx q db := by
  have hmem : r ∈ db.runs.rows.filter (q.accepts ctx) :=
    List.mem_filter.2 ⟨Table.mem_iff_get?.2 hr, h⟩
  unfold searchRuns at hlt ⊢
  rw [List.length_take, (perm_searched ctx q db).length_eq] at hlt
  rw [List.take_of_length_le (by rw [(perm_searched ctx q db).length_eq]; omega)]
  exact (perm_searched ctx q db).mem_iff.2 hmem

/-! ## Open rows -/

/-- A row in a group of runs that is not terminal. -/
def OpenIn (p : Run → Prop) (db : Db) (runId : String) (r : Run) : Prop :=
  db.runs.get? runId = some r ∧ p r ∧ r.status.terminal = false

/-- A run that is not terminal carries no completion generation. -/
def Run.Sealed (r : Run) : Prop :=
  (r.metadata.member completionGenerationKey).isSome → r.status.terminal = true

def Db.Sealed (db : Db) : Prop := ∀ runId r, db.runs.get? runId = some r → r.Sealed

variable {srv : Server} {rolledBack : String → Prop} {inserted : Ctx → NewRun → Prop} {db' : Db}
  {runId : String} {r' : Run} {env : Env}

theorem RowStep.of_open {rolledBack : Prop} (h : RowStep rolledBack r r')
    (hopen : r'.status.terminal = false) :
    r.status.terminal = false ∧ (r'.status = .pending → r.status = .pending) := by
  cases h with
  | same => exact ⟨hopen, id⟩
  | begun now hl ht hraw => exact ⟨ht, nofun⟩
  | completed output error now hl ht hst hraw => simp [hst] at hopen
  | failed => simp [RunStatus.terminal] at hopen

theorem RowStep.keeps_tree {rolledBack : Prop} (h : RowStep rolledBack r r') :
    r'.runId = r.runId ∧ r'.parentRunId = r.parentRunId ∧ r'.rootRunId = r.rootRunId := by
  cases h <;> exact ⟨rfl, rfl, rfl⟩

theorem lookup_of_member {t : Text} {m : Members Number} {k : String}
    (h : decodeMetadata t = some m) (hk : t.member k = none) : m.lookup k = none := by
  rcases t with _ | _ | v
  · cases h
    rfl
  · simp [decodeMetadata, unmarshalMap] at h
  · obtain ⟨o, ho, rfl⟩ := Option.map_eq_some_iff.1 h
    cases o with
    | none => rfl
    | some =>
      rw [Option.getD_some, Json.lookup_of_unmarshalMap ho, hk]
      rfl

theorem RowStep.sealed {rolledBack : Prop} (h : RowStep rolledBack r r') (hsealed : r.Sealed) :
    r'.Sealed := by
  cases h with
  | same => exact hsealed
  | @begun l generation raw now hl ht hraw =>
    -- the attempt's generation is written beside what was there, which has no completion
    have hnone : r.metadata.member completionGenerationKey = none := by
      by_contra hsome
      have hterm := hsealed (Option.isSome_iff_ne_none.2 hsome)
      simp [ht] at hterm
    have hdecode := (loaded_ok_iff.1 hl).1
    have hdistinct := (decoded_of_decodeMetadata hdecode).distinct.insert attemptGenerationKey
      (.number (.int generation))
    intro hsome
    rw [Json.member_marshal hdistinct hraw, Members.lookup_insert_of_ne (by decide),
      lookup_of_member hdecode hnone] at hsome
    simp at hsome
  | completed output error now hl ht hst hraw => exact fun _ => hst
  | failed => exact fun _ => rfl

theorem Create.sealed_row {c : Create} {ctx : Ctx} {run : NewRun} (h : c.inserts env ctx run) :
    (run.row ctx.tenant).Sealed := by
  obtain ⟨-, -, -, -, hdistinct, -⟩ := Create.inserts_run h
  have hnone : (run.metadata.getD []).lookup completionGenerationKey = none := by
    rw [Json.Members.lookup_eq_none_iff]
    obtain ⟨-, ⟨parent, -, rfl⟩ | ⟨-, _, rfl⟩⟩ := h
    · have hkeys : (((c.newRun env parent).metadata.getD []).map Prod.fst).Sublist
          (["requested_alias"] ++ ["cache_key"] ++ ["run_manifest"] ++ ["simulation"]) := by
        simp only [Create.newRun, Option.getD_some, List.map_append]
        exact ((c.keys_aliasMember.append (Create.keys_metadataMember _ _)).append
          (List.Sublist.refl _)).append (Create.keys_metadataMember _ _)
      exact fun hmem => absurd (hkeys.subset hmem) (by decide)
    · exact fun hmem => absurd ((c.keys_cached env).subset hmem) (by decide)
  intro hsome
  change (run.metadataText.member completionGenerationKey).isSome at hsome
  unfold NewRun.metadataText at hsome
  cases hm : run.metadata with
  | none => simp [hm, Text.member] at hsome
  | some metadata =>
    rw [hm, Option.getD_some] at hdistinct hnone
    obtain ⟨t, ht⟩ := Json.exists_marshal (.object metadata)
    simp [hm, ht, Json.member_marshal hdistinct ht, hnone] at hsome

theorem Writes.sealed (h : Writes srv rolledBack inserted db db') (hsealed : db.Sealed)
    (hinserted : ∀ ctx run, inserted ctx run → (run.row ctx.tenant).Sealed) : db'.Sealed := by
  intro runId r' hr' hsome
  cases hr : db.runs.get? runId with
  | some r =>
    exact (h.rowStep_kept hr hr').sealed (hsealed runId r hr) hsome
  | none =>
    cases hterm : r'.status.terminal with
    | true => rfl
    | false =>
      obtain ⟨ctx, run, hrun, -, rfl⟩ := h.newRow_open hr hr' hterm
      exact hterm.symm.trans (hinserted ctx run hrun hsome)

/-- In every interleaving, only terminal runs carry a completion generation. -/
theorem completed_runs_terminal (srv : Server) (evs : List Event) :
    (Trace.run (World.step srv) evs {}).db.Sealed := by
  refine @Trace.invariant_of_step _ _ _ (fun w : World => w.db.Sealed) (fun ev w h =>
    (w.step_writes ev).sealed h fun ctx run hins => ?_) evs {} fun _ _ h => by cases h
  obtain ⟨i, env, c, -, -, hinserts⟩ := hins
  exact Create.sealed_row hinserts

/-! ## Cancelling one run -/

/-- `cancelRunSingle` of a run that was read before. -/
def Cancellation.single (ctx : Ctx) (run : Run) : Cancellation where
  ctx := ctx
  runId := run.runId
  phase := if run.status.terminal && run.status ≠ .interrupted then .done none else .complete

def Cancellation.failed (c : Cancellation) : Bool :=
  match c.phase with
  | .done (some _) => true
  | _ => false

/-- Once the completion of the call was answered, its run is not open. -/
def Cancellation.Closes (c : Cancellation) (p : Run → Prop) (db : Db) : Prop :=
  match c.phase with
  | .load | .complete | .done (some _) => True
  | _ => ∀ r, ¬ OpenIn p db c.runId r

variable {c : Cancellation} {p : Run → Prop}

theorem terminal_of_cancel (d : Dialect) (ctx : Ctx) (completion : RunCompletion) (env : Env)
    {result : CompletionResult} (hsealed : db.Sealed)
    (hcurrent : completion.takesCurrent) (hterm : completion.status.terminal)
    (hok : (completeRun d ctx completion env.now env.driver db).1 = .ok result) :
    ∃ r, (completeRun d ctx completion env.now env.driver db).2.runs.get? completion.runId =
      some r ∧ r.status.terminal := by
  obtain ⟨_, hrun, hdb⟩ := Transaction.transact_ok hok
  obtain ⟨r, l, hr, hl, hres, hcases⟩ := run_completeRunInTx_ok hrun
  have hget := get?_of_getRun hr
  obtain ⟨hdecode, htenant, -, hst⟩ := loaded_ok_iff.1 hl
  change (completeRun d ctx completion env.now env.driver db).2 = _ at hdb
  rcases hcases with ⟨hno, rfl⟩ | ⟨happ, hcomp⟩
  · -- not applied to the current attempt, so the run was terminal
    rw [hno, if_neg (by simp)] at hdb
    refine ⟨r, by rw [hdb, hget], ?_⟩
    by_contra hopen
    have hopen : r.status.terminal = false := by simpa using hopen
    have hnone : r.metadata.member completionGenerationKey = none := by
      by_contra hsome
      have := hsealed _ r hget (Option.isSome_iff_ne_none.2 hsome)
      simp [hopen] at this
    have happ : (checkCompletion l.metadata l.status
        (resolveCompletion l.metadata completion)).applied := by
      refine checkCompletion_applied.2 ⟨by simpa using hterm, ?_,
        lookup_of_member hdecode hnone, by rw [hst, hopen]⟩
      rw [resolveCompletion_generation, if_pos hcurrent]
    rw [← hres, hno] at happ
    cases happ
  · rw [happ, if_pos rfl] at hdb
    obtain ⟨_, _, -, -, hget'⟩ := hcomp.get?_runs (by simpa using hget) htenant
    rw [resolveCompletion_runId] at hget'
    exact ⟨_, by rw [hdb, hget'], by simpa using hterm⟩

theorem not_openIn_of_terminal {runId : String} {r : Run} (hr : db.runs.get? runId = some r)
    (hterm : r.status.terminal) (r' : Run) : ¬ OpenIn p db runId r' := by
  rintro ⟨hr', -, hopen⟩
  cases hr.symm.trans hr'
  simp [hterm] at hopen

theorem Cancellation.closes_finish (h : ∀ r, ¬ OpenIn p db c.runId r) : c.finish.Closes p db := by
  unfold Cancellation.finish Cancellation.Closes Cancellation.goto
  split_ifs <;> exact h

theorem Cancellation.next_runId (c : Cancellation) : (c.next srv env db).1.runId = c.runId := by
  unfold Cancellation.next Cancellation.complete Cancellation.finish Cancellation.goto
  cases c.phase <;> dsimp only <;> repeat' (first | rfl | split)

theorem Cancellation.Closes.next (h : c.Closes p db) (hsealed : db.Sealed) :
    (c.next srv env db).1.Closes p (c.next srv env db).2 := by
  unfold Cancellation.next
  cases hphase : c.phase with
  | load =>
    simp only
    split
    · trivial
    · rename_i run hrun
      split_ifs with hterm
      · have hget := get?_of_getRun (getRun_of_fetchRun (Env.query_ok hrun))
        exact closes_finish (not_openIn_of_terminal hget (Bool.and_eq_true_iff.1 hterm).1)
      · trivial
  | complete =>
    simp only [Cancellation.complete]
    split
    · trivial
    · rename_i run hrun
      split
      · trivial
      · rename_i result db' heq
        obtain ⟨r, hr, hterm⟩ := terminal_of_cancel srv.dialect { tenant := run.tenantId }
          (c.completion env run) env hsealed rfl rfl (by rw [heq])
        have hclosed : ∀ r, ¬ OpenIn p db' c.runId r :=
          not_openIn_of_terminal (by rw [heq] at hr; exact hr) hterm
        split
        · trivial
        · exact hclosed
        · exact hclosed
  | recheck =>
    have hclosed : ∀ r, ¬ OpenIn p db c.runId r := by simpa [Closes, hphase] using h
    simp only
    split
    · trivial
    · split_ifs
      · exact hclosed
      · exact closes_finish hclosed
  | queueCancel =>
    have hclosed : ∀ r, ¬ OpenIn p db c.runId r := by simpa [Closes, hphase] using h
    simp only
    split
    · exact closes_finish hclosed
    · trivial
  | delete =>
    have hclosed : ∀ r, ¬ OpenIn p db c.runId r := by simpa [Closes, hphase] using h
    have hgone : ∀ r, ¬ OpenIn p (env.write (removeRun c.ctx c.runId) db).2 c.runId r := by
      obtain heq | heq := env.write_removeRun c.ctx c.runId db
      · rwa [heq]
      · rintro r ⟨hr, hp, hopen⟩
        rw [heq, Db.deleteRun, Table.get?_delete] at hr
        exact hclosed r ⟨(Option.filter_eq_some_iff.1 hr).1, hp, hopen⟩
    simp only
    split
    · rename_i heq
      rw [heq] at hgone
      exact hgone
    · trivial
  | done =>
    simpa [Closes, hphase] using h

/-- A step of others that opens no row under the id. -/
theorem Cancellation.Closes.mono {db' : Db} (h : c.Closes p db)
    (hopens : ∀ r', OpenIn p db' c.runId r' → ∃ r, OpenIn p db c.runId r) : c.Closes p db' := by
  unfold Cancellation.Closes at h ⊢
  split at h
  · trivial
  · trivial
  · trivial
  · intro r' hr'
    obtain ⟨r, hr⟩ := hopens r' hr'
    exact h r hr

end Runkite
