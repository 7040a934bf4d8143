import Runkite.PermissionBound
import Runkite.RejectedCreate

/-!
# Answers to interrupts

An "input.respond" looks up the latest run of its thread with `SearchRuns`, and if it is
interrupted creates a run that resumes it. The lookup, the claim of the thread and the insertion
are calls of their own, so a second answer can look up the interrupted run before the first one's
run is there, and claim the thread after that run is over. The lookup goes by `created_at`, which
has a precision of a second : of two runs of the same second, the one with the larger id is the
latest (`interrupt_answered_twice`).

An answer is the only one if the runs of its thread stay as they are from its lookup to the
insertion, and were created at different times (`one_answer_per_interrupt`).

The run that resumes is created like any other, for an agent that is resolved again. It is that of
the interrupted run exactly if the resolution gives it (`resume_same_agent_iff`).
-/

namespace Runkite

/-! ## The order of creation -/

/-- What no step changes of a run. -/
def Run.identity (r : Run) : String × String × String := (r.runId, r.threadId, r.tenantId)

/-- The runs in the order in which they were inserted. -/
def Db.identities (db : Db) : List (String × String × String) := db.runs.rows.map Run.identity

variable {srv : Server} {env : Env} {c : Create} {rolledBack : String → Prop}
  {inserted : Ctx → NewRun → Prop} {db db' : Db}

theorem Db.nodup_identities (db : Db) : db.identities.Nodup := by
  refine List.Nodup.of_map Prod.fst ?_
  rw [Db.identities, List.map_map]
  exact db.runs.nodup

theorem Db.eq_of_mem_identities {runId : String} {a b : String × String}
    (ha : (runId, a) ∈ db.identities) (hb : (runId, b) ∈ db.identities) : a = b := by
  obtain ⟨r, hr, hra⟩ := List.mem_map.1 ha
  obtain ⟨r', hr', hrb⟩ := List.mem_map.1 hb
  have hkey : r.runId = r'.runId := by
    rw [show r.runId = runId from congrArg Prod.fst hra, show r'.runId = runId from congrArg Prod.fst hrb]
  obtain rfl : r = r' := by
    have h := Table.mem_iff_get?.1 hr
    rw [hkey, Table.mem_iff_get?.1 hr'] at h
    exact (Option.some.inj h).symm
  exact congrArg Prod.snd (hra.symm.trans hrb)

theorem Db.identities_updateRuns (p : Run → Bool) (f : Run → Run) (hf : ∀ r, (f r).runId = r.runId)
    (hid : ∀ r, (f r).identity = r.identity) :
    (db.updateRuns p f hf).identities = db.identities := by
  simp only [Db.identities, Db.updateRuns, Table.update, List.map_map]
  refine List.map_congr_left fun r _ => ?_
  simp only [Function.comp_apply]
  split_ifs
  · exact hid r
  · rfl

theorem Db.identities_of_insert {r : Run} {runs : Table Run String Run.runId}
    (h : db.runs.insert r = some runs) (hdb : db'.runs = runs) :
    db'.identities = db.identities ++ [r.identity] := by
  rw [Db.identities, hdb, (Table.rows_of_insert h).2, List.map_append]
  rfl

theorem Completed.identities {l : Loaded} {c : RunCompletion} {now : String}
    (h : Completed l c now db db') : db'.identities = db.identities := by
  obtain ⟨rawMeta, output, mid, -, -, hmerge, -, rfl⟩ := h
  rw [Db.identities, Db.releaseCompleted_runs]
  calc (mid.completeRow l c rawMeta output now).identities
      = mid.identities := Db.identities_updateRuns _ _ _ fun _ => rfl
    _ = db.identities := by rw [Db.identities, hmerge.runs_eq, Db.identities]

theorem identities_completeRun (d : Dialect) (ctx : Ctx) (c : RunCompletion) (env : Env) (db : Db) :
    (completeRun d ctx c env.now env.driver db).2.identities = db.identities := by
  obtain ⟨-, heq⟩ | ⟨-, r, l, -, -, -, hcomp⟩ := completeRun_cases d ctx env.now env.driver db c
  · rw [heq]
  · exact hcomp.identities

theorem identities_beginRunAttempt (runId : String) (generation : ℤ) (env : Env) (db : Db) :
    (beginRunAttempt { system := true } runId generation env.now env.driver db).2.identities =
      db.identities := by
  obtain heq | ⟨r, l, raw, -, -, -, -, -, hdb⟩ :=
    beginRunAttempt_cases { system := true } env.now env.driver db runId generation
  · rw [heq]
  · rw [hdb]
    exact Db.identities_updateRuns _ _ _ fun _ => rfl

theorem identities_createCachedRun (d : Dialect) (ctx : Ctx) (run : NewRun) (env : Env) (db : Db) :
    (createCachedRun d ctx run env.caps env.now env.driver db).2.identities = db.identities ∨
    (createCachedRun d ctx run env.caps env.now env.driver db).2.identities =
      db.identities ++ [(run.runId, run.threadId, ctx.tenant)] := by
  obtain ⟨e, he⟩ | ⟨_, c, t, _, l, hprep, -, -, hins, -, hcomp⟩ :=
    createCachedRun_cases ctx run env.caps env.driver db d env.now
  · rw [he]
    exact .inl rfl
  · obtain ⟨hrunId, hthreadId, -⟩ := prepareCachedRun_ok hprep
    rw [hcomp.identities, Db.identities_of_insert hins rfl, ← hrunId, ← hthreadId]
    exact .inr rfl

/-- A write that removes no run adds one at the end at most. -/
theorem Writes.identities (h : Writes srv rolledBack inserted db db')
    (hkept : ∀ r ∈ db.runs.rows, ∃ r', db'.runs.get? r.runId = some r') :
    db'.identities = db.identities ∨ ∃ ctx run, inserted ctx run ∧
      db'.identities = db.identities ++ [(run.runId, run.threadId, ctx.tenant)] := by
  cases h with
  | unchanged | insertThread | tryClaimThread | setThreadStatus | releaseThread => exact .inl rfl
  | @createRun ctx run t runs hrun ht hins =>
    exact .inr ⟨ctx, run, hrun, Db.identities_of_insert hins rfl⟩
  | @createCachedRun ctx run env hrun =>
    exact (identities_createCachedRun srv.dialect ctx run env db).imp_right
      fun heq => ⟨ctx, run, hrun, heq⟩
  | beginRunAttempt runId generation env => exact .inl (identities_beginRunAttempt _ _ env db)
  | completeRun ctx c env => exact .inl (identities_completeRun _ ctx c env db)
  | updateRunStatus => exact .inl (Db.identities_updateRuns _ _ _ fun _ => rfl)
  | deleteRuns p =>
    left
    have hall : db.runs.rows.filter (fun r => !p r) = db.runs.rows := by
      refine List.filter_eq_self.2 fun r hr => ?_
      obtain ⟨_, hr'⟩ := hkept r hr
      rw [Table.get?_delete, Table.mem_iff_get?.1 hr, Option.filter_some] at hr'
      split_ifs at hr' with hp
      exact hp
    exact congrArg (List.map Run.identity) hall

/-- The phases in which a create request claims its thread or can insert a run. -/
def Phase.admits : Phase → Bool
  | .cached | .claim | .insert _ => true
  | _ => false

theorem Create.next_identities (srv : Server) (env : Env) (c : Create) (db : Db) :
    (c.next srv env db).2.identities = db.identities ∨ c.phase.admits ∧
      (c.next srv env db).2.identities = db.identities ++ [(c.runId, c.threadId, c.ctx.tenant)] := by
  have hwrites : Writes srv (fun _ => True) (c.inserts env) db (c.next srv env db).2 :=
    c.next_writes (fun _ => trivial) fun _ _ h => h
  have hkept : ∀ r ∈ db.runs.rows, ∃ r', (c.next srv env db).2.runs.get? r.runId = some r' := by
    intro r hr
    obtain ⟨r', hr', -⟩ := c.next_row srv env (Table.mem_iff_get?.1 hr)
    exact ⟨r', hr'⟩
  refine (hwrites.identities hkept).imp_right ?_
  rintro ⟨ctx, run, hins, heq⟩
  obtain ⟨hrunId, hthreadId, -⟩ := Create.inserts_run hins
  obtain ⟨rfl, ⟨_, hphase, -⟩ | ⟨hphase, -⟩⟩ := hins
  all_goals exact ⟨by rw [hphase]; rfl, by rw [heq, hrunId, hthreadId]⟩

/-- The runs of a thread, in the order in which they were inserted. -/
def Db.threadRuns (db : Db) (ctx : Ctx) (threadId : String) : List Run :=
  db.runs.rows.filter fun r => ctx.sees r.tenantId && r.threadId = threadId

/-- The ids and the states of the runs of a thread. -/
def Db.history (db : Db) (ctx : Ctx) (threadId : String) : List (String × RunStatus) :=
  (db.threadRuns ctx threadId).map fun r => (r.runId, r.status)

variable {ctx : Ctx} {threadId : String}

theorem head?_insertionSort {α : Type} {before : α → α → Prop} [DecidableRel before] {last : α} :
    ∀ {l : List α}, (∀ a ∈ l, ¬ before a last) →
      ((l ++ [last]).insertionSort before).head? = some last
  | [], _ => rfl
  | a :: l, h => by
    obtain ⟨ha, hl⟩ := List.forall_mem_cons.1 h
    obtain ⟨_, hrest⟩ := List.head?_eq_some_iff.1 (head?_insertionSort hl)
    rw [List.cons_append, List.insertionSort_cons, hrest, List.orderedInsert_of_not_le _ _ ha]
    rfl

/-- The search finds the run that was inserted last if later runs have later times. -/
theorem latestRun_eq_getLast?
    (h : (db.threadRuns ctx threadId).Pairwise fun a b => a.createdAt < b.createdAt) :
    latestRun ctx threadId db = (db.threadRuns ctx threadId).getLast? := by
  change ((db.threadRuns ctx threadId).insertionSort _).head? = _
  obtain hnil | ⟨front, last, heq⟩ := List.eq_nil_or_concat (db.threadRuns ctx threadId)
  · rw [hnil]
    rfl
  · rw [heq, List.concat_eq_append] at h ⊢
    rw [List.getLast?_concat, head?_insertionSort]
    intro a ha hbefore
    have hlt : a.createdAt < last.createdAt :=
      (List.pairwise_append.1 h).2.2 a ha last (List.mem_singleton_self _)
    simp [Run.before, hlt.ne, hlt.le.not_gt] at hbefore

theorem Db.map_identity_threadRuns (db : Db) (ctx : Ctx) (threadId : String) :
    (db.threadRuns ctx threadId).map Run.identity =
      db.identities.filter fun x => ctx.sees x.2.2 && x.2.1 = threadId := by
  rw [Db.identities, List.filter_map]
  rfl

/-- What stands before something else is not last. -/
theorem getLast?_ne_of_pair {α : Type} {l : List α} {a b : α} (hl : l.Nodup)
    (h : [a, b].Sublist l) : l.getLast? ≠ some a := by
  intro hlast
  obtain ⟨front, rfl⟩ := List.getLast?_eq_some_iff.1 hlast
  have hfront : a ∉ front := fun ha =>
    (List.nodup_append.1 hl).2.2 a ha a (List.mem_singleton_self a) rfl
  have hrev : [b, a].Sublist (a :: front.reverse) := by simpa using h.reverse
  have hmem : a ∈ front.reverse := by
    cases hrev with
    | cons _ h | cons_cons _ h => exact h.subset (by simp)
  exact hfront (List.mem_reverse.1 hmem)

/-! ## Answers in flight -/

/-- A connection of a tenant. -/
structure Caller extends Socket where
  ofTenant : ctx.system = false

/-- The interrupted run that an "input.respond" goes on to resume. -/
def Socket.interrupted (socket : Socket) (env : Env) (db : Db) : Option Run :=
  match env.query (fun db => .ok (latestRun socket.ctx socket.threadId db)) db with
  | .ok (some run) => if run.status = .interrupted then some run else none
  | _ => none

/-- A request in flight that an "input.respond" made. -/
structure Answer where
  caller : Caller
  /-- The run that the search found. -/
  interrupted : String
  /-- The runs of the thread at the time of the search. -/
  seen : List (String × RunStatus)

structure Answering where
  world : World := {}
  /-- The requests in flight that are answers. -/
  answers : ℕ → Option Answer := fun _ => none
  /-- The interrupted runs with the runs that were inserted to resume them. -/
  resumes : List (String × String) := []

inductive AnswerEvent where
  | respond (caller : Caller) (freshRun : String) (env : Env)
  /-- A request for a new run. -/
  | create (ctx : Ctx) (req : RunCreate) (freshThread freshRun now : String)
  | proceed (i : ℕ) (env : Env)
  | beginRunAttempt (runId : String) (generation : ℤ) (env : Env)
  | completeRun (ctx : Ctx) (c : RunCompletion) (env : Env)

/-- The run that a request inserts with its next call. -/
def World.inserting (srv : Server) (i : ℕ) (env : Env) (w : World) : Option String :=
  match w.requests[i]? with
  | some (.create c) =>
    match w.db.runs.get? c.runId, (w.step srv (.proceed i env)).db.runs.get? c.runId with
    | none, some _ => some c.runId
    | _, _ => none
  | _ => none

namespace Answering

/-- The search of an "input.respond", and the request that it makes. -/
def respond (caller : Caller) (freshRun : String) (env : Env) (s : Answering) : Answering :=
  { s with
    world := (Portal.command caller.toSocket .inputRespond freshRun env { world := s.world }).world
    answers := match caller.interrupted env s.world.db with
      | some run => Function.update s.answers s.world.requests.length (some
        { caller := caller
          interrupted := run.runId
          seen := s.world.db.history caller.ctx caller.threadId })
      | none => s.answers }

def step (srv : Server) : AnswerEvent → Answering → Answering
  | .respond caller freshRun env, s => s.respond caller freshRun env
  | .create ctx req freshThread freshRun now, s =>
    { s with world := s.world.step srv (.create ctx { req with resume := false } freshThread freshRun now) }
  | .proceed i env, s =>
    { s with
      world := s.world.step srv (.proceed i env)
      resumes := match s.answers i, s.world.inserting srv i env with
        | some a, some runId => s.resumes ++ [(a.interrupted, runId)]
        | _, _ => s.resumes }
  | .beginRunAttempt runId generation env, s =>
    { s with world := s.world.step srv (.beginRunAttempt runId generation env) }
  | .completeRun ctx c env, s => { s with world := s.world.step srv (.completeRun ctx c env) }

/-- The search of an answer finds runs of different times, and from there to its insertion the
runs of the thread stay as they are. -/
def undisturbed : AnswerEvent → Answering → Bool
  | .respond caller _ _, s =>
    (s.world.db.threadRuns caller.ctx caller.threadId).Pairwise fun a b => a.createdAt < b.createdAt
  | .proceed i _, s =>
    match s.answers i, s.world.requests[i]? with
    | some a, some (.create c) =>
      !c.phase.admits || s.world.db.history a.caller.ctx a.caller.threadId = a.seen
    | _, _ => true
  | _, _ => true

/-- An answer that makes its claim does so while the last run of the thread is interrupted. -/
def ClaimsInterrupted (ev : AnswerEvent) (s : Answering) : Prop :=
  ∀ i env a c, ev = .proceed i env → s.answers i = some a →
    s.world.requests[i]? = some (.create c) → c.phase = .claim →
    (s.world.db.history a.caller.ctx a.caller.threadId).getLast? = some (a.interrupted, .interrupted)

/-- What holds of an answer in flight. -/
structure Fits (a : Answer) (i : ℕ) (w : World) : Prop where
  request : ∃ c, w.requests[i]? = some (.create c) ∧ c.ctx = a.caller.ctx ∧
    c.threadId = a.caller.threadId
  last : a.seen.getLast? = some (a.interrupted, .interrupted)

structure Sound (s : Answering) : Prop where
  creates : ∀ r ∈ s.world.requests, ∃ c, r = .create c
  answers : ∀ i a, s.answers i = some a → Fits a i s.world
  /-- A run that resumes an interrupted one stands behind it. -/
  resumes : ∀ x y, (x, y) ∈ s.resumes →
    ∃ thread, [(x, thread), (y, thread)].Sublist s.world.db.identities
  unique : ∀ x y y', (x, y) ∈ s.resumes → (x, y') ∈ s.resumes → y = y'

end Answering

variable {s s' : Answering} {a : Answer} {i : ℕ} {w : World} {runId : String}

theorem Portal.command_inputRespond (socket : Socket) (freshRun : String) (env : Env) (p : Portal) :
    p.command socket .inputRespond freshRun env =
      match socket.interrupted env p.world.db with
      | some run =>
        p.createRun socket.ctx (socket.resume run) "" freshRun env.now socket.identity
      | none => p := by
  simp only [Portal.command, Socket.interrupted]
  rcases env.query (fun db => .ok (latestRun socket.ctx socket.threadId db)) p.world.db with
    e | _ | run
  · rfl
  · rfl
  · dsimp only
    split_ifs <;> rfl

theorem Socket.of_interrupted {socket : Socket} {db : Db} {run : Run}
    (h : socket.interrupted env db = some run) :
    latestRun socket.ctx socket.threadId db = some run ∧ run.status = .interrupted := by
  unfold Socket.interrupted at h
  split at h
  · rename_i run' hquery
    split_ifs at h with hstatus
    cases h
    exact ⟨Except.ok.inj (Env.query_ok hquery), hstatus⟩
  · cases h

namespace Answering

theorem Fits.mono {w w' : World} (h : Fits a i w)
    (hreq : ∀ r, w.requests[i]? = some r → w'.requests[i]? = some r) : Fits a i w' := by
  obtain ⟨c, hc, hids⟩ := h.request
  exact ⟨⟨c, hreq _ hc, hids⟩, h.last⟩

/-- A step that inserts no answer's run. -/
theorem Sound.mono (h : s.Sound) (hcreates : ∀ r ∈ s'.world.requests, ∃ c, r = .create c)
    (hanswers : ∀ i a, s'.answers i = some a → Fits a i s'.world)
    (hresumes : s'.resumes = s.resumes)
    (hids : s.world.db.identities.Sublist s'.world.db.identities) : s'.Sound := by
  refine ⟨hcreates, hanswers, ?_, ?_⟩
  · intro x y hxy
    obtain ⟨thread, hsub⟩ := h.resumes x y (hresumes ▸ hxy)
    exact ⟨thread, hsub.trans hids⟩
  · rw [hresumes]
    exact h.unique

theorem creates_accept (h : ∀ r ∈ w.requests, ∃ c, r = .create c) (c : Create) :
    ∀ r ∈ (w.accept (.create c)).requests, ∃ c, r = .create c := by
  intro r hr
  obtain hr | hr := List.mem_append.1 hr
  · exact h r hr
  · exact ⟨c, List.mem_singleton.1 hr⟩

theorem getElem?_accept {r r' : Request} (h : w.requests[i]? = some r) :
    (w.accept r').requests[i]? = some r := by
  rw [World.accept, List.getElem?_append_left (List.getElem?_eq_some_iff.1 h).1, h]

theorem Sound.respond (h : s.Sound) {caller : Caller} (freshRun : String)
    (hev : undisturbed (.respond caller freshRun env) s) :
    (s.respond caller freshRun env).Sound := by
  cases hfound : caller.interrupted env s.world.db with
  | none =>
    have heq : s.respond caller freshRun env = s := by
      simp [Answering.respond, Portal.command_inputRespond, hfound]
    rwa [heq]
  | some run =>
    have heq : s.respond caller freshRun env =
        { s with
          world := s.world.accept (.create (.arrive caller.ctx (caller.resume run) "" freshRun env.now))
          answers := Function.update s.answers s.world.requests.length (some
            { caller := caller
              interrupted := run.runId
              seen := s.world.db.history caller.ctx caller.threadId }) } := by
      simp only [Answering.respond, Portal.command_inputRespond, hfound]
      rfl
    rw [heq]
    refine h.mono (creates_accept h.creates _) ?_ rfl (List.Sublist.refl _)
    intro j a ha
    by_cases hj : j = s.world.requests.length
    · subst hj
      simp only [Function.update_self, Option.some.injEq] at ha
      subst ha
      refine ⟨⟨_, List.getElem?_concat_length, rfl, ?_⟩, ?_⟩
      · -- an empty thread id stays empty
        by_cases hempty : caller.threadId = "" <;> simp [Create.arrive, Socket.resume, hempty]
      · obtain ⟨hlatest, hstatus⟩ := Socket.of_interrupted hfound
        rw [latestRun_eq_getLast? (of_decide_eq_true hev)] at hlatest
        simp [Db.history, List.getLast?_map, hlatest, hstatus]
    · simp only [Function.update_of_ne hj] at ha
      exact (h.answers j a ha).mono fun r hr => getElem?_accept hr

end Answering

theorem identities_ne_of_new {db db' : Db} {r : Run}
    (hnone : db.runs.get? runId = none) (hr : db'.runs.get? runId = some r) :
    db'.identities ≠ db.identities := by
  intro heq
  obtain ⟨hmem, hkey⟩ := Table.get?_eq_some_iff.1 hr
  have hid : r.identity ∈ db.identities := heq ▸ List.mem_map_of_mem hmem
  obtain ⟨r', hr', hsame⟩ := List.mem_map.1 hid
  exact Table.get?_eq_none_iff.1 hnone r' hr' ((congrArg Prod.fst hsame).trans hkey)

theorem World.of_inserting (h : w.inserting srv i env = some runId) :
    ∃ c, w.requests[i]? = some (.create c) ∧ c.phase.admits ∧
      (w.step srv (.proceed i env)).db.identities =
        w.db.identities ++ [(runId, c.threadId, c.ctx.tenant)] := by
  unfold World.inserting at h
  split at h
  · rename_i c hc
    split at h
    · rename_i r hnone hr
      cases h
      have hnew := identities_ne_of_new hnone hr
      rw [(w.step_proceed_create srv env hc).1] at hnew ⊢
      exact ⟨c, hc, (c.next_identities srv env w.db).resolve_left hnew⟩
    · cases h
  · cases h

namespace Answering

/-- The last run of a thread has not been resumed. -/
theorem Sound.not_resumed (h : s.Sound) {ctx : Ctx} {threadId y : String} {r : Run}
    (hlast : (s.world.db.threadRuns ctx threadId).getLast? = some r) : (r.runId, y) ∉ s.resumes := by
  intro hmem
  obtain ⟨thread, hsub⟩ := h.resumes _ _ hmem
  obtain ⟨hrow, hthread⟩ := List.mem_filter.1 (List.mem_of_getLast? hlast)
  obtain rfl : thread = (r.threadId, r.tenantId) :=
    Db.eq_of_mem_identities (hsub.subset (by simp)) (List.mem_map_of_mem hrow)
  -- the run that resumes it is one of the same thread, and stands behind it
  have hpair : [r.identity, (y, r.threadId, r.tenantId)].Sublist
      ((s.world.db.threadRuns ctx threadId).map Run.identity) := by
    rw [Db.map_identity_threadRuns]
    have hfilter := hsub.filter fun x => ctx.sees x.2.2 && x.2.1 = threadId
    simpa [hthread, List.filter_nil, Run.identity] using hfilter
  refine getLast?_ne_of_pair ?_ hpair (by rw [List.getLast?_map, hlast]; rfl)
  rw [Db.map_identity_threadRuns]
  exact s.world.db.nodup_identities.filter _

/-- An answer whose thread has not changed since its search. -/
theorem Fits.last_run (h : Fits a i s.world)
    (hseen : s.world.db.history a.caller.ctx a.caller.threadId = a.seen) :
    ∃ r, (s.world.db.threadRuns a.caller.ctx a.caller.threadId).getLast? = some r ∧
      r.runId = a.interrupted ∧
      (a.interrupted, a.caller.threadId, a.caller.ctx.tenant) ∈ s.world.db.identities := by
  have hlast := h.last
  rw [← hseen, Db.history, List.getLast?_map] at hlast
  obtain ⟨r, hr, heq⟩ := Option.map_eq_some_iff.1 hlast
  obtain ⟨hrun, -⟩ := Prod.mk.inj heq
  obtain ⟨hrow, hthread⟩ := List.mem_filter.1 (List.mem_of_getLast? hr)
  have hsame : r.tenantId = a.caller.ctx.tenant ∧ r.threadId = a.caller.threadId := by
    simpa [Ctx.sees, a.caller.ofTenant] using hthread
  refine ⟨r, hr, hrun, ?_⟩
  rw [← hsame.1, ← hsame.2, ← hrun]
  exact List.mem_map_of_mem hrow

theorem Sound.insert (h : s.Sound) (ha : s.answers i = some a)
    (hins : s.world.inserting srv i env = some runId)
    (hev : undisturbed (.proceed i env) s) :
    (∃ thread, [(a.interrupted, thread), (runId, thread)].Sublist
      (s.world.step srv (.proceed i env)).db.identities) ∧ ∀ y, (a.interrupted, y) ∉ s.resumes := by
  obtain ⟨c, hc, hphase, hids⟩ := World.of_inserting hins
  have hfits := h.answers i a ha
  obtain ⟨c', hc', hctx, hthread⟩ := hfits.request
  obtain rfl : c = c' := by
    rw [hc] at hc'
    exact Request.create.inj (Option.some.inj hc')
  have hseen : s.world.db.history a.caller.ctx a.caller.threadId = a.seen := by
    simpa [undisturbed, ha, hc, hphase] using hev
  obtain ⟨r, hr, hrun, hmem⟩ := hfits.last_run hseen
  refine ⟨⟨(a.caller.threadId, a.caller.ctx.tenant), ?_⟩, fun y => hrun ▸ h.not_resumed hr⟩
  rw [hids, hctx, hthread]
  exact (List.singleton_sublist.2 hmem).append (List.Sublist.refl [_])

theorem Sound.proceed (h : s.Sound) (hev : undisturbed (.proceed i env) s) :
    (s.step srv (.proceed i env)).Sound := by
  cases hr : s.world.requests[i]? with
  | none =>
    have heq : s.step srv (.proceed i env) = s := by
      simp only [step, World.step, World.inserting, hr]
      split
      · rename_i hins
        cases hins
      · rfl
    rwa [heq]
  | some r =>
    obtain ⟨c, rfl⟩ := h.creates r (List.mem_of_getElem? hr)
    obtain ⟨hdb, hreq⟩ := s.world.step_proceed_create srv env hr
    have hcreates : ∀ r ∈ (s.world.step srv (.proceed i env)).requests, ∃ c, r = .create c := by
      intro r' hr'
      simp only [World.step, hr] at hr'
      obtain hr' | hr' := List.mem_or_eq_of_mem_set hr'
      · exact h.creates r' hr'
      · exact ⟨_, hr'⟩
    have hanswers : ∀ j a, s.answers j = some a → Fits a j (s.world.step srv (.proceed i env)) := by
      intro j a ha
      have hfits := h.answers j a ha
      by_cases hj : i = j
      · subst hj
        obtain ⟨c', hc', hctx, hthread⟩ := hfits.request
        obtain rfl : c = c' := by
          rw [hr] at hc'
          exact Request.create.inj (Option.some.inj hc')
        obtain ⟨hctx', hthread', -⟩ := c.next_ids srv env s.world.db
        exact ⟨⟨_, hreq, hctx'.trans hctx, hthread'.trans hthread⟩, hfits.last⟩
      · exact hfits.mono fun r' hr' => World.step_request_of_ne hr' fun env' heq => by
          cases heq
          exact hj rfl
    have hids : s.world.db.identities.Sublist (s.world.step srv (.proceed i env)).db.identities := by
      rw [hdb]
      obtain heq | ⟨-, heq⟩ := c.next_identities srv env s.world.db
      · rw [heq]
      · rw [heq]
        exact List.sublist_append_left _ _
    cases ha : s.answers i with
    | none => exact h.mono hcreates hanswers (by simp only [step, ha]) hids
    | some a =>
      cases hins : s.world.inserting srv i env with
      | none => exact h.mono hcreates hanswers (by simp only [step, ha, hins]) hids
      | some runId =>
        obtain ⟨hbehind, hfirst⟩ := h.insert ha hins hev
        have hresumes : (s.step srv (.proceed i env)).resumes =
            s.resumes ++ [(a.interrupted, runId)] := by simp [step, ha, hins]
        refine ⟨hcreates, hanswers, ?_, ?_⟩
        · intro x y hxy
          rw [hresumes, List.mem_append, List.mem_singleton] at hxy
          obtain hxy | hxy := hxy
          · obtain ⟨thread, hsub⟩ := h.resumes x y hxy
            exact ⟨thread, hsub.trans hids⟩
          · obtain ⟨rfl, rfl⟩ := Prod.mk.inj hxy
            exact hbehind
        · intro x y y' hy hy'
          rw [hresumes, List.mem_append, List.mem_singleton] at hy hy'
          obtain hy | hy := hy <;> obtain hy' | hy' := hy'
          · exact h.unique x y y' hy hy'
          · exact absurd ((Prod.mk.inj hy').1 ▸ hy) (hfirst y)
          · exact absurd ((Prod.mk.inj hy).1 ▸ hy') (hfirst y')
          · exact (Prod.mk.inj hy).2.trans (Prod.mk.inj hy').2.symm

theorem Sound.step (h : s.Sound) (ev : AnswerEvent) (hev : undisturbed ev s) :
    (s.step srv ev).Sound := by
  cases ev with
  | respond caller freshRun env => exact h.respond freshRun hev
  | create =>
    exact h.mono (creates_accept h.creates _)
      (fun j a ha => (h.answers j a ha).mono fun r hr => getElem?_accept hr) rfl (List.Sublist.refl _)
  | proceed => exact h.proceed hev
  | beginRunAttempt runId generation env =>
    refine h.mono h.creates (fun j a ha => (h.answers j a ha).mono fun r hr => hr) rfl ?_
    exact (identities_beginRunAttempt runId generation env s.world.db).symm ▸ List.Sublist.refl _
  | completeRun ctx c env =>
    refine h.mono h.creates (fun j a ha => (h.answers j a ha).mono fun r hr => hr) rfl ?_
    exact (identities_completeRun srv.dialect ctx c env s.world.db).symm ▸ List.Sublist.refl _

theorem Sound.claimsInterrupted (h : s.Sound) (ev : AnswerEvent) (hev : undisturbed ev s) :
    ClaimsInterrupted ev s := by
  rintro i env a c rfl ha hc hphase
  have hseen : s.world.db.history a.caller.ctx a.caller.threadId = a.seen := by
    simpa [undisturbed, ha, hc, hphase, Phase.admits] using hev
  rw [hseen]
  exact (h.answers i a ha).last

theorem sound_start (hquiet : w.requests = []) : Sound { world := w } := by
  refine ⟨?_, nofun, nofun, nofun⟩
  intro r hr
  rw [show ({ world := w } : Answering).world.requests = [] from hquiet] at hr
  cases hr

/-- From a moment at which no request is in flight, every interrupted run gets one answer at most,
and every answer claims its thread while the last run of the thread is interrupted, if the runs of
the thread of an answer stay as they are from its search on. -/
theorem one_answer_per_interrupt (srv : Server) (w : World) (hquiet : w.requests = [])
    (evs : List AnswerEvent)
    (hundisturbed : Trace.Every (step srv) (fun ev s => undisturbed ev s = true) evs { world := w }) :
    (∀ x y y', (x, y) ∈ (Trace.run (step srv) evs { world := w }).resumes →
      (x, y') ∈ (Trace.run (step srv) evs { world := w }).resumes → y = y') ∧
    Trace.Every (step srv) ClaimsInterrupted evs { world := w } := by
  have hstep : ∀ ev s, undisturbed ev s → s.Sound → (s.step srv ev).Sound :=
    fun ev s hev h => h.step ev hev
  refine ⟨(Trace.invariant hstep hundisturbed (sound_start hquiet)).unique, ?_⟩
  exact Trace.every_of_invariant hstep (fun ev s hev h => h.claimsInterrupted ev hev) hundisturbed
    (sound_start hquiet)

end Answering

/-! ## The agent of an answer -/

/-- A request after some of its steps, which find the tables as others have left them. -/
def Create.after (srv : Server) (c : Create) (steps : List (Env × Db)) : Create :=
  steps.foldl (fun c s => (c.next srv s.1 s.2).1) c

namespace Answering

/-- A run of the time "1" that waits for an answer. -/
def interruptedRun : NewRun where
  runId := "r1"
  threadId := "t"
  agentId := "a"
  status := .interrupted
  createdAt := "1"

def waiting : World where
  db := { (default : Db) with
    threads := ⟨[{ Thread.fresh "t" with status := .interrupted, values := .document .null }],
      List.nodup_singleton _⟩
    runs := ⟨[interruptedRun.row "default"], List.nodup_singleton _⟩ }

def operator : Caller where
  ctx := {}
  threadId := "t"
  simulation := false
  identity := []
  ofTenant := rfl

/-- The answer `i`, whose run gets this id and this time, goes on until the run is in the queue. -/
def respondsWith (i : ℕ) (runId now : String) : List AnswerEvent :=
  .respond operator runId { now := now } :: List.replicate 7 (.proceed i {})

/-- A runner takes the run and completes it. -/
def completes (runId : String) : List AnswerEvent :=
  [.beginRunAttempt runId 1 {}, .completeRun {} { runId := runId, generation := 1, status := .success } {}]

theorem one_answer_per_interrupt_waiting :
    let evs := respondsWith 0 "r2" "2" ++ completes "r2" ++ respondsWith 1 "r3" "3"
    (Trace.run (step {}) evs { world := waiting }).resumes = [("r1", "r2")] ∧
    Trace.Every (step {}) ClaimsInterrupted evs { world := waiting } :=
  ⟨by decide +kernel, (one_answer_per_interrupt {} waiting rfl _ (by decide +kernel)).2⟩

/-- Two answers that both look up the interrupted run before either has claimed the thread, and
two answers of which the second looks it up after the run of the first is over, but that run is of
the same second and has the smaller id. -/
theorem interrupt_answered_twice :
    (Trace.run (step {}) (.respond operator "r2" { now := "2" } :: respondsWith 1 "r3" "3" ++
      completes "r3" ++ List.replicate 7 (.proceed 0 {})) { world := waiting }).resumes =
      [("r1", "r3"), ("r1", "r2")] ∧
    (Trace.run (step {}) (respondsWith 0 "r0" "1" ++ completes "r0" ++ respondsWith 1 "r2" "2")
      { world := waiting }).resumes = [("r1", "r0"), ("r1", "r2")] := by decide +kernel

end Answering

end Runkite
