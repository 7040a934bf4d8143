import Runkite.CancelRun

/-!
# Cancelling a tree of delegated runs

A run that delegates to an agent is the parent of the run that is created for it, and every run of
such a tree carries the id of the root. `cancelRunCore` cancels a run, lists the runs of the tree with
one query, and walks from the run down to cancel its descendants one by one. Meanwhile agents go on to
delegate : `handleA2ACreateRun` looks the parent up, but not whether it still runs, and inserts the new
run several calls later. So a run can be created below a run that is cancelled, or that is about to
be, and is left alone (`delegated_under_cancelled`).

Otherwise every descendant of the run is terminal when the call has returned
(`cascade_covers_tree`).
-/

open Relation (ReflTransGen TransGen)

namespace Runkite

/-! ## The cancellation -/

def maxA2ACascadeRuns : ℕ := 5000

/-- The root of the tree that a run is in. -/
def Run.root (r : Run) : String := r.rootRunId.getD r.runId

def childrenOf (tree : List Run) (runId : String) : List Run :=
  tree.filter fun r => r.parentRunId = some runId

inductive CascadePhase where
  | load
  | own (run : Run) (call : Cancellation)
  | list (run : Run)
  | walk (tree queue : List Run)
  | child (tree : List Run) (child : Run) (queue : List Run) (call : Cancellation)
  | delete
  | returned (error : Option StoreError)

/-- `cancelRunCore`. -/
structure Cascade where
  ctx : Ctx
  runId : String
  rollback : Bool := false
  phase : CascadePhase := .load

namespace Cascade

def goto (c : Cascade) (phase : CascadePhase) : Cascade := { c with phase := phase }

/-- After `cascadeCancelDescendants`. -/
def finish (c : Cascade) : Cascade := c.goto (if c.rollback then .delete else .returned none)

def search (run : Run) (env : Env) (db : Db) : Except StoreError (List Run) :=
  env.query (fun db => .ok (searchRuns { system := true }
    { rootRunId := run.root, limit := maxA2ACascadeRuns } db)) db

def next (srv : Server) (env : Env) (c : Cascade) (db : Db) : Cascade × Db :=
  match c.phase with
  | .load =>
    match env.query (fetchRun c.ctx c.runId) db with
    | .error e => (c.goto (.returned (some e)), db)
    | .ok run => (c.goto (.own run (.single c.ctx run)), db)
  | .own run call =>
    let next := call.next srv env db
    match next.1.phase with
    | .done none => (c.goto (.list run), next.2)
    | .done (some e) => (c.goto (.returned (some e)), next.2)
    | _ => (c.goto (.own run next.1), next.2)
  | .list run =>
    match search run env db with
    | .error _ => (c.finish, db)
    | .ok tree => (c.goto (.walk tree (childrenOf tree run.runId)), db)
  | .walk _ [] => (c.finish, db)
  | .walk tree (child :: queue) =>
    (c.goto (.child tree child queue (.single { system := true } child)), db)
  | .child tree child queue call =>
    let next := call.next srv env db
    match next.1.phase with
    | .done _ => (c.goto (.walk tree (queue ++ childrenOf tree child.runId)), next.2)
    | _ => (c.goto (.child tree child queue next.1), next.2)
  | .delete =>
    match env.write (removeRun c.ctx c.runId) db with
    | (.ok _, db) => (c.goto (.returned none), db)
    | (.error e, db) => (c.goto (.returned (some e)), db)
  | .returned _ => (c, db)

def succeeded (c : Cascade) : Bool :=
  match c.phase with
  | .returned none => true
  | _ => false

/-- The tree is listed and its runs are being cancelled. -/
def walking (c : Cascade) : Bool :=
  match c.phase with
  | .walk _ _ | .child _ _ _ _ => true
  | _ => false

end Cascade

/-! ## Delegation -/

/-- The body of `POST /internal/a2a/runs`. -/
structure A2ARunRequest where
  agentId : String
  threadId : String := ""
  input : Option (Json.Value Binary64.Decimal) := none
  config : Option (Json.Value Binary64.Decimal) := none
  parentRunId : String

inductive A2APhase where
  | lookup
  | create (c : Create)
  | failed (e : StoreError)

/-- `handleA2ACreateRun`, with the ids that it draws. -/
structure A2ACall where
  req : A2ARunRequest
  freshThread : String
  freshRun : String
  createdAt : String := ""
  phase : A2APhase := .lookup

namespace A2ACall

/-- The call of `createRunCtx`, for the tenant of the parent. -/
def create (a : A2ACall) (parent : Run) : Create :=
  .arrive { tenant := parent.tenantId }
    { agentId := a.req.agentId
      threadId := if a.req.threadId = "" then "a2a-" ++ a.freshThread else a.req.threadId
      input := a.req.input
      config := a.req.config
      parentRunId := some a.req.parentRunId } "" a.freshRun a.createdAt

def next (srv : Server) (env : Env) (a : A2ACall) (db : Db) : A2ACall × Db :=
  match a.phase with
  | .lookup =>
    if a.req.agentId = "" then
      ({ a with phase := .failed (.message "agent_id is required") }, db)
    else if a.req.parentRunId = "" then
      ({ a with phase := .failed (.message "parent_run_id is required") }, db)
    else
      match env.query (fetchRun { system := true } a.req.parentRunId) db with
      | .error e => ({ a with phase := .failed e }, db)
      | .ok parent => ({ a with phase := .create (a.create parent) }, db)
  | .create c => ({ a with phase := .create (c.next srv env db).1 }, (c.next srv env db).2)
  | .failed _ => (a, db)

def answered (a : A2ACall) : Bool :=
  match a.phase with
  | .create c => (Request.create c).answered
  | .failed _ => true
  | .lookup => false

end A2ACall

/-- The store, the delegations in flight and the cancellation of a run. -/
structure Delegation where
  db : Db
  calls : List A2ACall := []
  cancel : Cascade

inductive DelegationEvent where
  | a2aCreate (req : A2ARunRequest) (freshThread freshRun now : String)
  /-- A delegation makes its next call. -/
  | proceed (i : ℕ) (env : Env)
  | beginRunAttempt (runId : String) (generation : ℤ) (env : Env)
  | completeRun (ctx : Ctx) (c : RunCompletion) (env : Env)
  /-- The cancellation makes its next call. -/
  | cancel (env : Env)

def Delegation.step (srv : Server) : DelegationEvent → Delegation → Delegation
  | .a2aCreate req freshThread freshRun now, s =>
    { s with calls := s.calls ++
        [{ req := req, freshThread := freshThread, freshRun := freshRun, createdAt := now }] }
  | .proceed i env, s =>
    match s.calls[i]? with
    | none => s
    | some a =>
      { s with db := (a.next srv env s.db).2, calls := s.calls.set i (a.next srv env s.db).1 }
  | .beginRunAttempt runId generation env, s =>
    { s with db := (beginRunAttempt { system := true } runId generation env.now env.driver s.db).2 }
  | .completeRun ctx c env, s =>
    { s with db := (completeRun srv.dialect ctx c env.now env.driver s.db).2 }
  | .cancel env, s =>
    { s with cancel := (s.cancel.next srv env s.db).1, db := (s.cancel.next srv env s.db).2 }

open Delegation

/-! ## Trees -/

/-- The run `b` is stored as a child of `a`. -/
def ChildOf (db : Db) (a b : String) : Prop :=
  ∃ r, db.runs.get? b = some r ∧ r.parentRunId = some a

/-- The run is stored below another. -/
def Descends (db : Db) (a b : String) : Prop := TransGen (ChildOf db) a b

/-- The runs carry the roots of their trees, `root` by their ids. -/
structure Db.Rooted (db : Db) (root : String → String) : Prop where
  own : ∀ runId r, db.runs.get? runId = some r → r.root = root runId
  child : ∀ runId r parent, db.runs.get? runId = some r → r.parentRunId = some parent →
    r.rootRunId = some (root parent)

/-! ## The condition -/

namespace Delegation

/-- A delegated run is inserted under a fresh id, below a parent that is stored and not terminal, and
not below the run whose descendants are being cancelled. -/
structure Admits (s : Delegation) (runId parentRunId : String) : Prop where
  other : runId ≠ s.cancel.runId
  unnamed : ∀ r ∈ s.db.runs.rows, r.parentRunId ≠ some runId
  unasked : ∀ a ∈ s.calls, a.req.parentRunId ≠ runId
  live : ∃ r, s.db.runs.get? parentRunId = some r ∧ r.status.terminal = false
  outside : s.cancel.walking = true →
    parentRunId ≠ s.cancel.runId ∧ ¬ Descends s.db s.cancel.runId parentRunId

/-- The list of the tree is complete, and no call of the walk returns an error. -/
def calm (srv : Server) (env : Env) (s : Delegation) : Bool :=
  match s.cancel.phase with
  | .list run =>
    match Cascade.search run env s.db with
    | .error _ => false
    | .ok tree => tree.length < maxA2ACascadeRuns
  | .child _ _ _ call => !(call.next srv env s.db).1.failed
  | _ => true

/-- Delegated runs are inserted as `Admits` says, and the cancellation is calm. -/
def fits (srv : Server) : DelegationEvent → Delegation → Prop
  | .proceed i _, s => ∀ a c parent, s.calls[i]? = some a → a.phase = .create c →
      c.phase = .insert (some parent) → s.Admits c.runId parent.runId
  | .cancel env, s => s.calm srv env = true
  | _, _ => True

end Delegation

/-! ## What a step adds -/

/-- The request delegates from the run `parent`, with what it has read of it. -/
def Create.Names (c : Create) (root : String → String) (parentRunId : String) : Prop :=
  c.req.parentRunId = some parentRunId ∧
    match c.phase with
    | .parent runId => runId = parentRunId
    | .siblings parent | .insert (some parent) =>
      parent.runId = parentRunId ∧ parent.root = root parentRunId
    | .insert none => False
    | _ => True

/-- The run that the call inserts, if it comes to it. -/
def A2ACall.inserts (a : A2ACall) (env : Env) (ctx : Ctx) (run : NewRun) : Prop :=
  ∃ c parent, a.phase = .create c ∧ c.phase = .insert (some parent) ∧ ctx = c.ctx ∧
    run = c.newRun env (some parent)

variable {srv : Server} {env : Env} {root : String → String} {db : Db} {q : String}

theorem Create.Names.next {c : Create} (h : c.Names root q)
    (hown : ∀ runId r, db.runs.get? runId = some r → r.root = root runId) :
    (c.next srv env db).1.Names root q := by
  obtain ⟨hparent, hphase⟩ := h
  cases hp : c.phase with
  | claim =>
    simp only [Create.next, hp, Create.tryClaim]
    split
    · exact ⟨hparent, trivial⟩
    · exact ⟨hparent, trivial⟩
    · rw [hparent]
      exact ⟨hparent, rfl⟩
  | parent runId =>
    obtain rfl : runId = q := by simpa [hp] using hphase
    simp only [Create.next, hp, Create.checkParent]
    split
    · exact ⟨hparent, trivial⟩
    · rename_i parent hfetch
      have hget := get?_of_getRun (getRun_of_fetchRun (Env.query_ok hfetch))
      split_ifs
      · exact ⟨hparent, trivial⟩
      · exact ⟨hparent, Table.key_of_get? hget, hown runId parent hget⟩
  | siblings =>
    simp only [hp] at hphase
    simp only [Create.next, hp, Create.checkSiblings]
    split
    · exact ⟨hparent, trivial⟩
    · split_ifs
      · exact ⟨hparent, trivial⟩
      · exact ⟨hparent, hphase⟩
  | resolve =>
    simp only [Create.next, hp, Create.resolve]
    split
    · exact ⟨hparent, trivial⟩
    · exact ⟨hparent, trivial⟩
  | _ =>
    obtain ⟨p, hgoto, hgoes⟩ | ⟨hresolve, -⟩ := c.next_goes srv env db
    · rw [hgoto]
      refine ⟨hparent, ?_⟩
      rw [hp] at hgoes
      cases hgoes <;> trivial
    · simp [hp] at hresolve

variable {inserted : Ctx → NewRun → Prop} {rolledBack : String → Prop}

theorem A2ACall.next_writes {a : A2ACall} (h : ∀ c, a.phase = .create c → c.Names root q)
    (hinserted : ∀ ctx run, a.inserts env ctx run → inserted ctx run) :
    Writes srv (fun _ => True) inserted db (a.next srv env db).2 := by
  unfold A2ACall.next
  cases hp : a.phase with
  | lookup =>
    dsimp only
    split_ifs
    · exact .unchanged
    · exact .unchanged
    · split <;> exact .unchanged
  | failed => exact .unchanged
  | create c =>
    obtain ⟨hparent, hphase⟩ := h c hp
    change Writes srv _ _ db (c.next srv env db).2
    by_cases hcached : c.phase = .cached
    · -- a delegated run is not served from the cache
      have hsame : (c.next srv env db).2 = db := by
        simp [Create.next, hcached, Create.tryServeCached, hparent]
      rw [hsame]
      exact .unchanged
    · refine c.next_writes (fun _ => trivial) fun ctx run hins => ?_
      obtain ⟨hctx, ⟨parent, hinsert, hrun⟩ | ⟨hcached', -⟩⟩ := hins
      · rw [hinsert] at hphase
        cases parent with
        | none => exact hphase.elim
        | some parent => exact hinserted ctx run ⟨c, parent, hp, hinsert, hctx, hrun⟩
      · exact absurd hcached' hcached

theorem Cascade.next_writes
    (c : Cascade) : Writes srv rolledBack inserted db (c.next srv env db).2 := by
  unfold Cascade.next
  cases hp : c.phase with
  | load | list => dsimp only; split <;> exact .unchanged
  | own run call | child tree child queue call => dsimp only; split <;> exact call.next_writes
  | walk tree queue => cases queue <;> exact .unchanged
  | delete =>
    have hw : Writes srv rolledBack inserted db (env.write (removeRun c.ctx c.runId) db).2 := by
      obtain heq | heq := env.write_removeRun c.ctx c.runId db
      · rw [heq]
        exact .unchanged
      · rw [heq]
        exact .deleteRuns _
    dsimp only
    split
    all_goals
      rename_i heq
      rw [heq] at hw
      exact hw
  | returned => exact .unchanged

/-- A row that a write adds is the one of the run, where only pending runs are inserted. -/
theorem Writes.newRow_pending
    {db' : Db} {runId : String} {r : Run} (h : Writes srv rolledBack inserted db db')
    (hpending : ∀ ctx run, inserted ctx run → run.status = .pending)
    (hnone : db.runs.get? runId = none) (hr : db'.runs.get? runId = some r) :
    ∃ ctx run, inserted ctx run ∧ run.runId = runId ∧ r = run.row ctx.tenant := by
  obtain ⟨ctx, run, t, hrun, hid, -, hrow⟩ | ⟨ctx, run, _, hrun, rfl⟩ := h.newRow_cases hnone hr
  · exact ⟨ctx, run, hrun, hid, hrow⟩
  · have hrefused : prepareCachedRun run =
        .error (.message "cached creation requires a successful result") := by
      rw [prepareCachedRun, if_pos (by rw [hpending ctx run hrun]; decide)]
    rw [Runkite.createCachedRun, hrefused] at hr
    simp [hnone] at hr

/-! ## The invariant -/

/-- The run is not stored, or terminal. -/
def Db.Settled (db : Db) (runId : String) : Prop :=
  ∀ r, db.runs.get? runId = some r → r.status.terminal = true

/-- The run `b` is listed as a child of `a`. -/
def ChildIn (tree : List Run) (a b : String) : Prop :=
  ∃ r ∈ tree, r.runId = b ∧ r.parentRunId = some a

/-- Every run below `runId` is settled or listed below a run of the queue; those that were listed as
terminal are settled. -/
structure Reached (db : Db) (runId : String) (tree queue : List Run) : Prop where
  below : ∀ x, Descends db runId x →
    db.Settled x ∨ ∃ q ∈ queue, ReflTransGen (ChildIn tree) q.runId x
  listed : ∀ q ∈ queue, q ∈ tree
  told : ∀ r ∈ tree, r.status.terminal = true → Descends db runId r.runId → db.Settled r.runId

/-- What the position of the cancellation of `runId` says about the tree. -/
def CascadePhase.Holds (root : String → String) (runId : String) (db : Db) : CascadePhase → Prop
  | .load | .returned (some _) => True
  | .own run call => run.runId = runId ∧ run.root = root runId ∧ call.runId = runId ∧
      call.Closes (fun _ => True) db
  | .list run => run.runId = runId ∧ run.root = root runId ∧ db.Settled runId
  | .walk tree queue => db.Settled runId ∧ Reached db runId tree queue
  | .child tree run queue call => db.Settled runId ∧ Reached db runId tree (run :: queue) ∧
      call.runId = run.runId ∧ (Descends db runId call.runId → call.Closes (fun _ => True) db)
  | .delete | .returned none => db.Settled runId ∧ ∀ x, Descends db runId x → db.Settled x

structure Delegation.Inv (s : Delegation) (root : String → String) : Prop where
  rooted : s.db.Rooted root
  sealedRows : s.db.Sealed
  calls : ∀ a ∈ s.calls, ∀ c, a.phase = .create c → c.Names root a.req.parentRunId
  phase : s.cancel.phase.Holds root s.cancel.runId s.db

variable {s : Delegation} {ev : DelegationEvent} {db' : Db} {x p : String} {r : Run}
  {tree queue : List Run}

theorem settled_iff : db.Settled x ↔ ∀ r, ¬ OpenIn (fun _ => True) db x r := by
  refine ⟨fun h r hopen => ?_, fun h r hr => ?_⟩
  · simpa [h r hopen.1] using hopen.2.2
  · by_contra hopen
    exact h r ⟨hr, trivial, by simpa using hopen⟩

/-- What a step adds : a pending run below a parent, as `Admits` says. -/
structure Delegation.Adds (s : Delegation) (root : String → String) (x : String) (r : Run) : Prop where
  absent : s.db.runs.get? x = none
  admits : ∃ parent, r.parentRunId = some parent ∧ r.rootRunId = some (root parent) ∧
    s.Admits x parent
  fresh : r.Sealed

theorem Delegation.step_writes (h : s.Inv root) :
    Writes srv (fun _ => True) (fun ctx run => ∃ i env a, ev = .proceed i env ∧
      s.calls[i]? = some a ∧ a.inserts env ctx run) s.db (s.step srv ev).db := by
  cases ev with
  | a2aCreate => exact .unchanged
  | proceed i env =>
    simp only [step]
    cases ha : s.calls[i]? with
    | none => exact .unchanged
    | some a =>
      exact A2ACall.next_writes (h.calls a (List.mem_of_getElem? ha))
        fun ctx run hins => ⟨i, env, a, rfl, ha, hins⟩
  | beginRunAttempt runId generation env => exact .beginRunAttempt runId generation env
  | completeRun ctx c env => exact .completeRun ctx c env
  | cancel => exact s.cancel.next_writes

theorem Delegation.row_cases (h : s.Inv root) (hfits : s.fits srv ev)
    (hr : (s.step srv ev).db.runs.get? x = some r) :
    (∃ r₀, s.db.runs.get? x = some r₀ ∧ RowStep True r₀ r) ∨ s.Adds root x r := by
  have hwrites : Writes srv _ _ s.db (s.step srv ev).db := step_writes h
  cases hr₀ : s.db.runs.get? x with
  | some r₀ =>
    exact .inl ⟨r₀, rfl, hwrites.rowStep_kept hr₀ hr⟩
  | none =>
    have hpending : ∀ ctx run, (∃ i env a, ev = .proceed i env ∧ s.calls[i]? = some a ∧
        a.inserts env ctx run) → run.status = .pending := by
      rintro ctx run ⟨i, env, a, -, -, c, parent, -, -, -, rfl⟩
      rfl
    obtain ⟨_, _, ⟨i, _, a, rfl, ha, c, parent, hc, hinsert, hctx, rfl⟩, hid, rfl⟩ :=
      hwrites.newRow_pending hpending hr₀ hr
    have hnames := h.calls a (List.mem_of_getElem? ha) c hc
    obtain ⟨hparent, hphase⟩ := hnames
    rw [hinsert] at hphase
    obtain ⟨hrunId, hroot⟩ := hphase
    have hadmits := hfits a c parent ha hc hinsert
    refine .inr ⟨hr₀, ⟨a.req.parentRunId, hparent, ?_, ?_⟩, ?_⟩
    · exact congrArg some hroot
    · rw [← hid, ← hrunId]
      exact hadmits
    · exact Create.sealed_row ⟨hctx, .inl ⟨some parent, hinsert, rfl⟩⟩

/-- A run that is new after a step is one that the step adds. -/
theorem Delegation.admits_of_new (h : s.Inv root) (hfits : s.fits srv ev)
    (hnone : s.db.runs.get? x = none) (hr : (s.step srv ev).db.runs.get? x = some r) :
    ∃ parent, s.Admits x parent := by
  rcases row_cases h hfits hr with ⟨_, hr₀, -⟩ | hadds
  · simp [hnone] at hr₀
  · obtain ⟨parent, -, -, hadmits⟩ := hadds.admits
    exact ⟨parent, hadmits⟩

/-! ## What a step keeps -/

/-- The roots after a step : the same, and those of the runs that it adds. -/
def rootAfter (root : String → String) (db db' : Db) (x : String) : String :=
  match db.runs.get? x, db'.runs.get? x with
  | none, some r => r.root
  | _, _ => root x

theorem rootAfter_of_stored (h : db.runs.get? x = some r) : rootAfter root db db' x = root x := by
  simp [rootAfter, h]

theorem rootAfter_eq (h : ∀ r, db.runs.get? x = none → db'.runs.get? x ≠ some r) :
    rootAfter root db db' x = root x := by
  unfold rootAfter
  split
  · rename_i r hnone hr
    exact absurd hr (h r hnone)
  · rfl

theorem Delegation.Adds.live (h : s.Adds root x r) : ∃ parent r₀, r.parentRunId = some parent ∧
    s.db.runs.get? parent = some r₀ ∧ r₀.status.terminal = false := by
  obtain ⟨parent, hparent, -, hadmits⟩ := h.admits
  obtain ⟨r₀, hr₀, hopen⟩ := hadmits.live
  exact ⟨parent, r₀, hparent, hr₀, hopen⟩

theorem stored_of_descends (h : Descends db p x) : ∃ r, db.runs.get? x = some r := by
  cases h with
  | single h | tail _ h => exact ⟨h.choose, h.choose_spec.1⟩

/-- While the descendants are cancelled, and once they are, nothing is added below the run. -/
theorem Delegation.Adds.outside {parent : String} (hadds : s.Adds root x r)
    (hparent : r.parentRunId = some parent)
    (hphase : s.cancel.walking ∨ s.db.Settled s.cancel.runId ∧
      ∀ x, Descends s.db s.cancel.runId x → s.db.Settled x) :
    parent ≠ s.cancel.runId ∧ ¬ Descends s.db s.cancel.runId parent := by
  obtain ⟨parent', hparent', -, hadmits⟩ := hadds.admits
  obtain rfl : parent' = parent := Option.mem_unique hparent' hparent
  rcases hphase with hwalking | ⟨hown, hbelow⟩
  · exact hadmits.outside hwalking
  · obtain ⟨r₀, hr₀, hopen⟩ := hadmits.live
    have hnot : ¬ s.db.Settled parent' := fun hsettled => by simp [hsettled r₀ hr₀] at hopen
    exact ⟨fun heq => hnot (heq ▸ hown), fun hdesc => hnot (hbelow parent' hdesc)⟩

variable {call : Cancellation} {run : Run} {c : Cascade}

section

variable (h : s.Inv root) (hfits : s.fits srv ev)
include h hfits

theorem Delegation.Inv.rooted_step :
    (s.step srv ev).db.Rooted (rootAfter root s.db (s.step srv ev).db) where
  own x r hr := by
    rcases row_cases h hfits hr with ⟨r₀, hr₀, hrow⟩ | hadds
    · obtain ⟨hid, -, hroot⟩ := hrow.keeps_tree
      rw [rootAfter_of_stored hr₀, ← h.rooted.own x r₀ hr₀, Run.root, Run.root, hid, hroot]
    · simp [rootAfter, hadds.absent, hr]
  child x r parent hr hparent := by
    rcases row_cases h hfits hr with ⟨r₀, hr₀, hrow⟩ | hadds
    · obtain ⟨-, hsame, hroot⟩ := hrow.keeps_tree
      rw [hroot, h.rooted.child x r₀ parent hr₀ (hsame ▸ hparent)]
      -- the parent is not added now, since a stored run names it
      refine congrArg some (rootAfter_eq fun r' hnone hr' => ?_).symm
      obtain ⟨_, hadmits⟩ := admits_of_new h hfits hnone hr'
      exact hadmits.unnamed r₀ (Table.get?_eq_some_iff.1 hr₀).1 (hsame ▸ hparent)
    · obtain ⟨_, hparent', hroot, hadmits⟩ := hadds.admits
      cases hparent'.symm.trans hparent
      obtain ⟨_, hr₀, -⟩ := hadmits.live
      rw [hroot, rootAfter_of_stored hr₀]

theorem Delegation.Inv.sealed_step : (s.step srv ev).db.Sealed := by
  intro x r hr
  rcases row_cases h hfits hr with ⟨r₀, hr₀, hrow⟩ | hadds
  · exact hrow.sealed (h.sealedRows x r₀ hr₀)
  · exact hadds.fresh

theorem Delegation.Inv.settled_step (hx : (∃ r, s.db.runs.get? x = some r) ∨ x = s.cancel.runId)
    (hsettled : s.db.Settled x) : (s.step srv ev).db.Settled x := by
  intro r hr
  rcases row_cases h hfits hr with ⟨r₀, hr₀, hrow⟩ | hadds
  · by_contra hopen
    have hwas := (hrow.of_open (by simpa using hopen)).1
    simp [hsettled r₀ hr₀] at hwas
  · rcases hx with ⟨_, hr₀⟩ | rfl
    · simp [hadds.absent] at hr₀
    · obtain ⟨_, -, -, hadmits⟩ := hadds.admits
      exact absurd rfl hadmits.other

theorem Delegation.Inv.descends_of_step
    (houtside : ∀ x r parent, s.Adds root x r → r.parentRunId = some parent →
      parent ≠ p ∧ ¬ Descends s.db p parent)
    (hdesc : Descends (s.step srv ev).db p x) : Descends s.db p x := by
  have hchild : ∀ {a b}, ChildOf (s.step srv ev).db a b → ChildOf s.db a b ∨
      a ≠ p ∧ ¬ Descends s.db p a := by
    rintro a b ⟨r, hr, hparent⟩
    rcases row_cases h hfits hr with ⟨r₀, hr₀, hrow⟩ | hadds
    · exact .inl ⟨r₀, hr₀, hrow.keeps_tree.2.1 ▸ hparent⟩
    · exact .inr (houtside b r a hadds hparent)
  induction hdesc with
  | single hstep =>
    rcases hchild hstep with hold | ⟨hne, -⟩
    · exact .single hold
    · exact absurd rfl hne
  | tail _ hstep ih =>
    rcases hchild hstep with hold | ⟨-, hnot⟩
    · exact .tail ih hold
    · exact absurd ih hnot

theorem Reached.step (hreached : Reached s.db s.cancel.runId tree queue)
    (hdesc : ∀ x, Descends (s.step srv ev).db s.cancel.runId x → Descends s.db s.cancel.runId x) :
    Reached (s.step srv ev).db s.cancel.runId tree queue := by
  have hstays : ∀ x, Descends s.db s.cancel.runId x → s.db.Settled x →
      (s.step srv ev).db.Settled x :=
    fun x hx => h.settled_step hfits (.inl (stored_of_descends hx))
  refine ⟨fun x hx => ?_, hreached.listed, fun r hr hterm hx => ?_⟩
  · exact (hreached.below x (hdesc x hx)).imp_left (hstays x (hdesc x hx))
  · exact hstays _ (hdesc _ hx) (hreached.told r hr hterm (hdesc _ hx))

theorem Cancellation.Closes.step
    (hid : (∃ r, s.db.runs.get? call.runId = some r) ∨ call.runId = s.cancel.runId)
    (hcloses : call.Closes (fun _ => True) s.db) :
    call.Closes (fun _ => True) (s.step srv ev).db := by
  refine hcloses.mono fun r' hopen => ?_
  by_contra hnone
  have hsettled : s.db.Settled call.runId :=
    settled_iff.2 fun r hr => hnone ⟨r, hr⟩
  exact settled_iff.1 (h.settled_step hfits hid hsettled) r' hopen

theorem Delegation.Inv.root_cancel :
    rootAfter root s.db (s.step srv ev).db s.cancel.runId = root s.cancel.runId := by
  refine rootAfter_eq fun r hnone hr => ?_
  obtain ⟨_, hadmits⟩ := admits_of_new h hfits hnone hr
  exact hadmits.other rfl

theorem Delegation.Inv.descends_step
    (hwhen : s.cancel.walking ∨ s.db.Settled s.cancel.runId ∧
      ∀ x, Descends s.db s.cancel.runId x → s.db.Settled x)
    (hx : Descends (s.step srv ev).db s.cancel.runId x) : Descends s.db s.cancel.runId x :=
  h.descends_of_step hfits (fun _ _ _ hadds hparent => hadds.outside hparent hwhen) hx

/-- The position after a step that leaves it. -/
theorem Delegation.Inv.phase_step :
    s.cancel.phase.Holds (rootAfter root s.db (s.step srv ev).db) s.cancel.runId
      (s.step srv ev).db := by
  have hphase := h.phase
  have hroot := h.root_cancel hfits
  have hdesc := fun hwhen x => h.descends_step (x := x) hfits hwhen
  have hsettled := h.settled_step hfits (x := s.cancel.runId) (.inr rfl)
  have hall : (s.db.Settled s.cancel.runId ∧
        ∀ x, Descends s.db s.cancel.runId x → s.db.Settled x) →
      (s.step srv ev).db.Settled s.cancel.runId ∧
        ∀ x, Descends (s.step srv ev).db s.cancel.runId x → (s.step srv ev).db.Settled x := by
    refine fun hclosed => ⟨hsettled hclosed.1, fun x hx => ?_⟩
    have hbefore := hdesc (.inr hclosed) x hx
    exact h.settled_step hfits (.inl (stored_of_descends hbefore)) (hclosed.2 x hbefore)
  cases hp : s.cancel.phase with
  | load => trivial
  | own =>
    rw [hp] at hphase
    obtain ⟨hid, hrunRoot, hcall, hcloses⟩ := hphase
    exact ⟨hid, hrunRoot.trans hroot.symm, hcall, hcloses.step h hfits (.inr hcall)⟩
  | list =>
    rw [hp] at hphase
    exact ⟨hphase.1, hphase.2.1.trans hroot.symm, hsettled hphase.2.2⟩
  | walk =>
    rw [hp] at hphase
    have hwalking : s.cancel.walking := by simp [Cascade.walking, hp]
    exact ⟨hsettled hphase.1, hphase.2.step h hfits (hdesc (.inl hwalking))⟩
  | child =>
    rw [hp] at hphase
    obtain ⟨hown, hreached, hcall, hcloses⟩ := hphase
    have hwalking : s.cancel.walking := by simp [Cascade.walking, hp]
    refine ⟨hsettled hown, hreached.step h hfits (hdesc (.inl hwalking)), hcall, fun hx => ?_⟩
    have hbefore := hdesc (.inl hwalking) _ hx
    exact (hcloses hbefore).step h hfits (.inl (stored_of_descends hbefore))
  | delete =>
    rw [hp] at hphase
    exact hall hphase
  | returned error =>
    cases error with
    | some => trivial
    | none =>
      rw [hp] at hphase
      exact hall hphase

theorem Delegation.Inv.calls_step : ∀ a ∈ (s.step srv ev).calls, ∀ c, a.phase = .create c →
      c.Names (rootAfter root s.db (s.step srv ev).db) a.req.parentRunId := by
  -- the parents that are asked for are not added now
  have hsame : ∀ a ∈ s.calls, rootAfter root s.db (s.step srv ev).db a.req.parentRunId =
      root a.req.parentRunId := by
    refine fun a ha => rootAfter_eq fun r hnone hr => ?_
    obtain ⟨_, hadmits⟩ := admits_of_new h hfits hnone hr
    exact hadmits.unasked a ha rfl
  have hnames : ∀ a ∈ s.calls, ∀ c : Create, c.Names root a.req.parentRunId →
      c.Names (rootAfter root s.db (s.step srv ev).db) a.req.parentRunId := by
    intro a ha c hc
    unfold Create.Names at hc ⊢
    rwa [hsame a ha]
  have hkept := fun a ha c hc => hnames a ha c (h.calls a ha c hc)
  intro a' ha'
  cases ev with
  | a2aCreate =>
    rcases List.mem_append.1 ha' with ha | ha
    · exact hkept a' ha
    · obtain rfl := List.mem_singleton.1 ha
      exact fun c hc => by cases hc
  | proceed i env =>
    cases hi : s.calls[i]? with
    | none =>
      have hstep : s.step srv (.proceed i env) = s := by simp [step, hi]
      rw [hstep] at ha'
      exact hkept a' ha'
    | some a =>
      have hcalls : (s.step srv (.proceed i env)).calls =
          s.calls.set i (a.next srv env s.db).1 := by simp [step, hi]
      rw [hcalls] at ha'
      rcases List.mem_or_eq_of_mem_set ha' with ha | rfl
      · exact hkept a' ha
      · have ha := List.mem_of_getElem? hi
        intro c' hc'
        have hreq : (a.next srv env s.db).1.req = a.req := by
          unfold A2ACall.next
          repeat' split
          all_goals rfl
        rw [hreq]
        refine hnames a ha c' ?_
        unfold A2ACall.next at hc'
        cases hp : a.phase with
        | failed => simp [hp] at hc'
        | create c =>
          simp only [hp, A2APhase.create.injEq] at hc'
          rw [← hc']
          exact (h.calls a ha c hp).next h.rooted.own
        | lookup =>
          simp only [hp] at hc'
          split_ifs at hc'
          split at hc'
          · cases hc'
          · rename_i parent _
            have heq : a.create parent = c' := by simpa using hc'
            rw [← heq]
            exact ⟨rfl, trivial⟩
  | beginRunAttempt | completeRun | cancel => exact hkept a' ha'

end

/-! ## Steps of the cancellation -/

theorem closes_single {ctx : Ctx} (h : r.status.terminal → db.Settled r.runId) :
    (Cancellation.single ctx r).Closes (fun _ => True) db := by
  unfold Cancellation.single Cancellation.Closes
  split_ifs with hterm
  · exact settled_iff.1 (h (Bool.and_eq_true_iff.1 hterm).1)
  · trivial

theorem settled_of_closes (h : call.Closes (fun _ => True) db)
    (hphase : call.phase = .done none) : db.Settled call.runId := by
  rw [settled_iff]
  simpa [Cancellation.Closes, hphase] using h

/-- The list of the tree has every run below the run. -/
theorem descends_listed (hrooted : db.Rooted root) (hroot : run.root = root p)
    (hsearch : Cascade.search run env db = .ok tree) (hlt : tree.length < maxA2ACascadeRuns)
    (h : Descends db p x) : TransGen (ChildIn tree) p x ∧ root x = root p := by
  have hok : .ok (searchRuns { system := true }
      { rootRunId := run.root, limit := maxA2ACascadeRuns } db) =
      (.ok tree : Except StoreError (List Run)) := Env.query_ok hsearch
  cases hok
  have hchild : ∀ {a b}, root a = root p → ChildOf db a b →
      ChildIn (searchRuns { system := true }
        { rootRunId := run.root, limit := maxA2ACascadeRuns } db) a b ∧ root b = root p := by
    rintro a b ha ⟨r, hr, hparent⟩
    have hrunRoot : r.rootRunId = some (root p) := ha ▸ hrooted.child b r a hr hparent
    have hkey := Table.key_of_get? hr
    refine ⟨⟨r, mem_searchRuns hlt (hkey ▸ hr) ?_, hkey, hparent⟩, ?_⟩
    · simp [RunSearch.accepts, Ctx.sees, hrunRoot, hroot]
    · rw [← hrooted.own b r hr, Run.root, hrunRoot, Option.getD_some]
  induction h with
  | single hstep =>
    obtain ⟨hlisted, hroot'⟩ := hchild rfl hstep
    exact ⟨.single hlisted, hroot'⟩
  | tail _ hstep ih =>
    obtain ⟨hlisted, hroot'⟩ := hchild ih.2 hstep
    exact ⟨.tail ih.1 hlisted, hroot'⟩

theorem mem_childrenOf_of_transGen (h : TransGen (ChildIn tree) p x) :
    ∃ q ∈ childrenOf tree p, ReflTransGen (ChildIn tree) q.runId x := by
  obtain ⟨b, ⟨r, hr, rfl, hparent⟩, hrest⟩ := TransGen.head'_iff.1 h
  exact ⟨r, List.mem_filter.2 ⟨hr, by simpa using hparent⟩, hrest⟩

/-- The first run of the queue is settled, and its children are queued. -/
theorem Reached.next (h : Reached db p tree (run :: queue))
    (hsettled : Descends db p run.runId → db.Settled run.runId) :
    Reached db p tree (queue ++ childrenOf tree run.runId) := by
  refine ⟨fun x hx => ?_, fun q hq => ?_, h.told⟩
  · rcases h.below x hx with hdone | ⟨q, hq, hbelow⟩
    · exact .inl hdone
    · rcases List.mem_cons.1 hq with rfl | hq
      · rcases Relation.reflTransGen_iff_eq_or_transGen.1 hbelow with rfl | htrans
        · exact .inl (hsettled hx)
        · obtain ⟨q', hq', hrest⟩ := mem_childrenOf_of_transGen htrans
          exact .inr ⟨q', List.mem_append_right _ hq', hrest⟩
      · exact .inr ⟨q, List.mem_append_left _ hq, hbelow⟩
  · rcases List.mem_append.1 hq with hq | hq
    · exact h.listed q (List.mem_cons_of_mem _ hq)
    · exact (List.mem_filter.1 hq).1

theorem holds_finish (hown : db.Settled p)
    (hbelow : ∀ x, Descends db p x → db.Settled x) : c.finish.phase.Holds root p db := by
  unfold Cascade.finish Cascade.goto
  split_ifs <;> exact ⟨hown, hbelow⟩

theorem Cascade.next_child (srv : Server) (env : Env)
    (db : Db) (hp : c.phase = .child tree run queue call) :
    (c.next srv env db).2 = (call.next srv env db).2 ∧
      ((c.next srv env db).1.phase = .child tree run queue (call.next srv env db).1 ∨
        ∃ error, (call.next srv env db).1.phase = .done error ∧
          (c.next srv env db).1.phase = .walk tree (queue ++ childrenOf tree run.runId)) := by
  simp only [Cascade.next, hp]
  split
  · rename_i error hdone
    exact ⟨rfl, .inr ⟨error, hdone, rfl⟩⟩
  · exact ⟨rfl, .inl rfl⟩

/-- A descendant was cancelled, or its cancellation goes on. -/
theorem Delegation.Inv.child_step (h : s.Inv root) (hfits : s.fits srv (.cancel env))
    (hp : s.cancel.phase = .child tree run queue call) : (s.cancel.next srv env s.db).1.phase.Holds
      (rootAfter root s.db (s.step srv (.cancel env)).db) s.cancel.runId
      (s.cancel.next srv env s.db).2 := by
  have hafter := h.phase_step hfits
  have hbefore := h.phase
  rw [hp] at hbefore hafter
  obtain ⟨-, -, hcall, hcloses⟩ := hbefore
  obtain ⟨hown, hreached, -, -⟩ := hafter
  have hwalking : s.cancel.walking := by simp [Cascade.walking, hp]
  obtain ⟨hdb, hphase⟩ := Cascade.next_child srv env s.db hp
  have hnext : Descends (s.cancel.next srv env s.db).2 s.cancel.runId run.runId →
      (call.next srv env s.db).1.Closes (fun _ => True) (s.cancel.next srv env s.db).2 := by
    intro hx
    have hx' : Descends s.db s.cancel.runId call.runId :=
      hcall ▸ h.descends_step hfits (.inl hwalking) hx
    exact hdb ▸ (hcloses hx').next h.sealedRows
  have hcall' : (call.next srv env s.db).1.runId = run.runId := by rw [call.next_runId, hcall]
  rcases hphase with hgoes | ⟨error, hdone, hgoes⟩
  · rw [hgoes]
    exact ⟨hown, hreached, hcall', fun hx => hnext (hcall' ▸ hx)⟩
  · -- the call returned, and not with an error
    have hfailed : (call.next srv env s.db).1.failed = false := by
      simpa [fits, calm, hp] using hfits
    cases error with
    | some => simp [Cancellation.failed, hdone] at hfailed
    | none =>
      rw [hgoes]
      exact ⟨hown, hreached.next fun hx => hcall' ▸ settled_of_closes (hnext hx) hdone⟩

theorem Delegation.Inv.cancel_step (h : s.Inv root) (hfits : s.fits srv (.cancel env)) :
    (s.cancel.next srv env s.db).1.phase.Holds
      (rootAfter root s.db (s.step srv (.cancel env)).db) s.cancel.runId
      (s.cancel.next srv env s.db).2 := by
  have hafter := h.phase_step hfits
  have hroot := h.root_cancel hfits
  have hbefore := h.phase
  change s.cancel.phase.Holds _ s.cancel.runId (s.cancel.next srv env s.db).2 at hafter
  unfold Cascade.next at hafter ⊢
  cases hp : s.cancel.phase with
  | load =>
    dsimp only
    split
    · trivial
    · rename_i run hfetch
      have hget := get?_of_getRun (getRun_of_fetchRun (Env.query_ok hfetch))
      have hid : run.runId = s.cancel.runId := Table.key_of_get? hget
      refine ⟨hid, (h.rooted.own _ run hget).trans hroot.symm, hid, closes_single fun hterm => ?_⟩
      intro r hr
      obtain rfl := Option.some.inj ((hid ▸ hget).symm.trans hr)
      exact hterm
  | own run call =>
    rw [hp] at hbefore hafter
    obtain ⟨hid, hrunRoot, hcall, hcloses⟩ := hbefore
    have hnext : (call.next srv env s.db).1.Closes (fun _ => True) (call.next srv env s.db).2 :=
      hcloses.next h.sealedRows
    have hcall' : (call.next srv env s.db).1.runId = s.cancel.runId := by
      rw [call.next_runId, hcall]
    dsimp only
    split
    · rename_i hdone
      exact ⟨hid, hrunRoot.trans hroot.symm, hcall' ▸ settled_of_closes hnext hdone⟩
    · trivial
    · exact ⟨hid, hrunRoot.trans hroot.symm, hcall', hnext⟩
  | list run =>
    rw [hp] at hbefore
    obtain ⟨hid, hrunRoot, hown⟩ := hbefore
    obtain ⟨tree, hsearch, hlt⟩ : ∃ tree, Cascade.search run env s.db = .ok tree ∧
        tree.length < maxA2ACascadeRuns := by
      simp only [fits, calm, hp] at hfits
      split at hfits
      · cases hfits
      · rename_i tree hsearch
        exact ⟨tree, hsearch, by simpa using hfits⟩
    dsimp only
    rw [hsearch]
    refine ⟨hown, ⟨fun x hx => ?_, fun q hq => (List.mem_filter.1 hq).1, fun r hr hterm _ => ?_⟩⟩
    · have hlisted := (descends_listed h.rooted hrunRoot hsearch hlt hx).1
      rw [← hid] at hlisted
      exact .inr (mem_childrenOf_of_transGen hlisted)
    · have hok : .ok (searchRuns { system := true }
          { rootRunId := run.root, limit := maxA2ACascadeRuns } s.db) =
          (.ok tree : Except StoreError (List Run)) := Env.query_ok hsearch
      rw [← Except.ok.inj hok] at hr
      intro r' hr'
      obtain rfl := Option.some.inj ((of_mem_searchRuns hr).1.symm.trans hr')
      exact hterm
  | walk tree queue =>
    rw [hp] at hbefore
    obtain ⟨hown, hreached⟩ := hbefore
    cases queue with
    | nil =>
      refine holds_finish hown fun x hx => ?_
      rcases hreached.below x hx with hdone | ⟨q, hq, -⟩
      · exact hdone
      · cases hq
    | cons run queue =>
      refine ⟨hown, hreached, rfl, fun hx => closes_single fun hterm => ?_⟩
      exact hreached.told run (hreached.listed run List.mem_cons_self) hterm hx
  | child =>
    have hchild := h.child_step hfits hp
    rw [Cascade.next, hp] at hchild
    exact hchild
  | delete =>
    rw [hp] at hafter
    dsimp only at hafter ⊢
    split at hafter
    · exact hafter
    · trivial
  | returned =>
    rw [hp] at hafter
    simp only [hp]
    exact hafter

theorem Delegation.Inv.step (h : s.Inv root) (hfits : s.fits srv ev) :
    ∃ root', (s.step srv ev).Inv root' := by
  refine ⟨_, h.rooted_step hfits, h.sealed_step hfits, h.calls_step hfits, ?_⟩
  cases ev with
  | cancel env =>
    have hid : (s.step srv (.cancel env)).cancel.runId = s.cancel.runId := by
      change (s.cancel.next srv env s.db).1.runId = _
      unfold Cascade.next Cascade.finish Cascade.goto
      dsimp only
      repeat' split
      all_goals rfl
    rw [hid]
    exact h.cancel_step hfits
  | proceed i env =>
    have hsame : (s.step srv (.proceed i env)).cancel = s.cancel := by
      simp only [step]
      split <;> rfl
    rw [hsame]
    exact h.phase_step hfits
  | a2aCreate | beginRunAttempt | completeRun => exact h.phase_step hfits

/-- For every interleaving of delegations, attempts and completions with the cancellation of a run, if
the steps fit : once the cancellation returned without an error, every run below the cancelled one is
terminal; and no run is created under a parent that was cancelled. -/
theorem cascade_covers_tree (srv : Server) (db : Db) (root : String → String)
    (hrooted : db.Rooted root) (hsealed : db.Sealed) (ctx : Ctx) (runId : String) (rollback : Bool)
    (events : List DelegationEvent)
    (hfits : Trace.Every (Delegation.step srv) (fun ev s => s.fits srv ev) events
      ⟨db, [], { ctx := ctx, runId := runId, rollback := rollback }⟩) :
    let s : Delegation := ⟨db, [], { ctx := ctx, runId := runId, rollback := rollback }⟩
    let final := Trace.run (Delegation.step srv) events s
    (final.cancel.succeeded = true → ∀ x, Descends final.db final.cancel.runId x →
      ∀ r, final.db.runs.get? x = some r → r.status.terminal = true) ∧
    Trace.Every (Delegation.step srv) (fun ev s => ∀ x r, s.db.runs.get? x = none →
      (s.step srv ev).db.runs.get? x = some r → ∃ parent p, r.parentRunId = some parent ∧
        s.db.runs.get? parent = some p ∧ p.status.terminal = false) events s := by
  intro s final
  have hstart : ∃ root, s.Inv root := ⟨root, hrooted, hsealed, by simp [s], trivial⟩
  have hstep : ∀ ev (s : Delegation), s.fits srv ev → (∃ root, s.Inv root) →
      ∃ root, (s.step srv ev).Inv root := fun ev s hfit ⟨_, h⟩ => h.step hfit
  refine ⟨fun hreturned x hx => ?_, Trace.every_of_invariant hstep ?_ hfits hstart⟩
  · obtain ⟨root', h⟩ := Trace.invariant hstep hfits hstart
    have hphase := h.phase
    unfold Cascade.succeeded at hreturned
    split at hreturned
    · rename_i hp
      rw [hp] at hphase
      exact hphase.2 x hx
    · cases hreturned
  · rintro ev s hfit ⟨root', h⟩ x r hnone hr
    rcases row_cases h hfit hr with ⟨_, hr₀, -⟩ | hadds
    · simp [hnone] at hr₀
    · exact hadds.live

/-- A run and one that it delegated to. -/
def delegatedOnce : Db where
  threads := ⟨[Thread.fresh "t", Thread.fresh "u"], by decide⟩
  runs := ⟨[Run.fresh "p" "t",
    { Run.fresh "c" "u" with parentRunId := some "p", rootRunId := some "p", depth := 1 }], by decide⟩
  checkpoints := .empty

theorem rooted_delegatedOnce : delegatedOnce.Rooted fun _ => "p" := by
  have hrows : ∀ x r, delegatedOnce.runs.get? x = some r → r ∈ delegatedOnce.runs.rows :=
    fun x r hr => (Table.get?_eq_some_iff.1 hr).1
  constructor
  · intro x r hr
    rcases List.mem_pair.1 (hrows x r hr) with rfl | rfl <;> rfl
  · intro x r parent hr hparent
    rcases List.mem_pair.1 (hrows x r hr) with rfl | rfl
    · cases hparent
    · rfl

theorem sealed_delegatedOnce : delegatedOnce.Sealed := by
  intro x r hr hsome
  rcases List.mem_pair.1 (Table.get?_eq_some_iff.1 hr).1 with rfl | rfl <;> cases hsome

/-- The second of the two delegates to a third, which is inserted when the first has been cancelled, and
before its tree is listed. -/
def delegatedMeanwhile : List DelegationEvent :=
  .a2aCreate { agentId := "agent", parentRunId := "c" } "v" "d" "" ::
    List.replicate 6 (.proceed 0 {}) ++ List.replicate 2 (.cancel {}) ++
    List.replicate 5 (.proceed 0 {}) ++ List.replicate 12 (.cancel {})

def cancelDelegatedOnce : Delegation := ⟨delegatedOnce, [], { ctx := {}, runId := "p" }⟩

def A2APhase.create? : A2APhase → Option Create
  | .create c => some c
  | _ => none

/-- The parent of the run that is about to be inserted. -/
def Create.parent? (c : Create) : Option Run :=
  match c.phase with
  | .parent _ => none
  | .siblings _ => none
  | .insert (some parent) => some parent
  | .insert none => none
  | _ => none

/-- The step fits, and is not the insertion of a run while a tree is being cancelled. -/
def Delegation.fitsOutside (srv : Server) (s : Delegation) : DelegationEvent → Bool
  | .proceed i _ => (s.calls[i]?).all fun a => a.phase.create?.all fun c => c.parent?.all fun parent =>
    c.runId ≠ s.cancel.runId && s.db.runs.rows.all (fun r => r.parentRunId ≠ some c.runId) &&
      s.calls.all (fun a => a.req.parentRunId ≠ c.runId) &&
      (s.db.runs.get? parent.runId).any (fun r => !r.status.terminal) && !s.cancel.walking
  | .cancel env => s.calm srv env
  | _ => true

theorem Delegation.fits_of_fitsOutside {ev : DelegationEvent} {s : Delegation}
    (h : s.fitsOutside srv ev) : s.fits srv ev := by
  cases ev with
  | proceed i env =>
    intro a c parent ha hcreate hinsert
    simp only [fitsOutside, ha, A2APhase.create?, hcreate, Create.parent?, hinsert, Option.all_some,
      Bool.and_eq_true, decide_eq_true_eq, List.all_eq_true, Option.any_eq_true,
      Bool.not_eq_true'] at h
    obtain ⟨⟨⟨⟨hother, hunnamed⟩, hunasked⟩, hlive⟩, hwalking⟩ := h
    exact ⟨hother, hunnamed, hunasked, hlive, fun h => absurd h (by simp [hwalking])⟩
  | cancel => exact h
  | _ => trivial

/-- All three runs are cancelled. -/
theorem cascade_covers_child :
    let s := Trace.run (Delegation.step {}) delegatedMeanwhile cancelDelegatedOnce
    s.cancel.succeeded = true ∧ s.db.runs.rows.map Run.runId = ["p", "c", "d"] ∧
      ∀ x, Descends s.db "p" x → ∀ r, s.db.runs.get? x = some r → r.status.terminal = true := by
  have hid : (Trace.run (step {}) delegatedMeanwhile cancelDelegatedOnce).cancel.runId = "p" := by
    decide +kernel
  have hfits : Trace.Every (step {}) (fun ev s => s.fitsOutside {} ev = true) delegatedMeanwhile
    cancelDelegatedOnce := by decide +kernel
  have hcovers := (cascade_covers_tree {} delegatedOnce (fun _ => "p") rooted_delegatedOnce
    sealed_delegatedOnce {} "p" false _ (Trace.every_of_imp (fun _ _ => fits_of_fitsOutside) hfits)).1
    (by decide +kernel)
  exact ⟨by decide +kernel, by decide +kernel, fun x hx => hcovers x (hid ▸ hx)⟩

/-- A run is cancelled, and then delegates : the new run is pending, and stays so. -/
theorem delegated_under_cancelled :
    let cancelled := Trace.run (Delegation.step {}) (List.replicate 5 (.cancel {}))
      ⟨Db.single (Thread.fresh "t") (Run.fresh "p" "t"), [], { ctx := {}, runId := "p" }⟩
    let final := Trace.run (Delegation.step {})
      (.a2aCreate { agentId := "agent", parentRunId := "p" } "u" "c" "" ::
        List.replicate 11 (.proceed 0 {})) cancelled
    cancelled.cancel.succeeded = true ∧
      ((cancelled.db.runs.get? "p").any fun r => r.status = .interrupted) = true ∧
      final.calls.all A2ACall.answered = true ∧
      ((final.db.runs.get? "c").any fun r =>
        r.parentRunId = some "p" && r.status = .pending) = true := by decide +kernel

end Runkite
