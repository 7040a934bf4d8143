import Runkite.EventStream

/-!
# What a stream says is true

Whatever the log holds and however publishes, new attempts and completions are interleaved with
the steps of `replayRunEvents`, the client is sent at most one terminal event, nothing after it,
and its status is that of the durable run. The events of the runners are sent in the order of their
generations (`stream_truth`).

The durable part is that a run which is terminal stays as it is (`Closed`) : the completion call of
the reader hands on an accepted result only if the run is closed with its status. The rest is local
to the reader (`StreamReader.Quiet`).
-/

open Json (Members Number Text)
open Transaction (Driver)

namespace Runkite

open StreamReader

/-! ## Closed runs -/

/-- The durable run is terminal with the status. -/
def Closed (runId : String) (status : RunStatus) (db : Db) : Prop :=
  ∃ r, db.runs.get? runId = some r ∧ r.status = status ∧ status.terminal = true

variable {d : Dialect} {runId : String} {status : RunStatus} {db : Db} {ctx : Ctx}
  {c : RunCompletion} {now : String} {driver : Driver StoreError}

theorem Closed.beginRunAttempt (h : Closed runId status db) (generation : ℤ) :
    Closed runId status (beginRunAttempt ctx runId generation now driver db).2 := by
  obtain ⟨r, hr, rfl, hterm⟩ := h
  obtain heq | ⟨r', l, raw, hr', -, hnot, -⟩ :=
    beginRunAttempt_cases ctx now driver db runId generation
  · exact ⟨r, by rw [heq, hr], rfl, hterm⟩
  · cases hr'.symm.trans hr
    simp [hterm] at hnot

theorem Closed.completeRun (h : Closed c.runId status db) :
    Closed c.runId status (completeRun d ctx c now driver db).2 := by
  obtain ⟨r, hr, rfl, hterm⟩ := h
  obtain ⟨-, heq⟩ | ⟨-, _, l, hr', -, happ, -⟩ := completeRun_cases d ctx now driver db c
  · exact ⟨r, by rw [heq, hr], rfl, hterm⟩
  · cases hr'.symm.trans hr
    have hnot := (checkCompletion_applied.1 happ).2.2.2
    simp [hterm] at hnot

theorem status_of_accepted {m : Members Number} {status : RunStatus}
    (haccepted : (checkCompletion m status c).accepted)
    (happlied : (checkCompletion m status c).applied = false) :
    status = c.status ∧ c.status.terminal := by
  unfold checkCompletion at haccepted happlied
  split_ifs at haccepted happlied
  simp_all

theorem closed_of_accepted {result : CompletionResult}
    (h : (completeRun d ctx c now driver db).1 = .ok result) (haccepted : result.accepted) :
    Closed c.runId c.status (completeRun d ctx c now driver db).2 := by
  obtain ⟨db', hrun, hdb⟩ := Transaction.transact_ok h
  obtain ⟨r, l, hr, hl, hres, hcases⟩ := run_completeRunInTx_ok hrun
  obtain ⟨-, ht, -, hst⟩ := loaded_ok_iff.1 hl
  have hget := get?_of_getRun hr
  have hdb' : (completeRun d ctx c now driver db).2 = if result.applied then db' else db := hdb
  rw [hdb']
  rcases hcases with ⟨happ, -⟩ | ⟨happ, hcomp⟩
  · obtain ⟨hstatus, hterm⟩ := status_of_accepted (hres ▸ haccepted) (hres ▸ happ)
    rw [resolveCompletion_status] at hstatus hterm
    simp only [happ]
    exact ⟨r, hget, hst ▸ hstatus, hterm⟩
  · have hterm := (checkCompletion_applied.1 (hres ▸ happ)).1
    rw [resolveCompletion_status] at hterm
    obtain ⟨_, _, -, -, hrow⟩ := hcomp.get?_runs (by simpa using hget) ht
    simp only [happ, if_true]
    exact ⟨_, by simpa using hrow, by simp, hterm⟩

theorem readRun_ok {r : Run} (h : db.readRun driver ctx runId = .ok r) :
    db.runs.get? runId = some r := by
  have hread := Transaction.query_ok h
  split at hread
  · rename_i r' hr'
    cases hread
    exact get?_of_getRun hr'
  · simp at hread

/-! ## Completion calls -/

/-- A request for the completion that a stream makes : with a generation of its own. -/
structure CompletionRequest.Plain (q : CompletionRequest) : Prop where
  cancel : q.cancelCurrentAttempt = false
  replayOnly : q.replayOnly = false

namespace CompletionPhase

variable {env : CallEnv} {log : List RunEvent} {q : CompletionRequest} {phase : CompletionPhase}

/-- An accepted result is handed on only if the run is closed with its status. -/
def Truth (q : CompletionRequest) (db : Db) : CompletionPhase → Prop
  | .read => True
  | .replay _ c | .commit _ c _ => c.runId = q.runId ∧ c.status = q.status
  | .reread _ result | .finalize result | .returned result _ =>
    result.accepted = true → Closed q.runId q.status db

theorem truth_fail (e : StoreError) : Truth q db (.fail e) := fun h => by simp at h

theorem truth_afterRead (hq : q.Plain) {r : Run} (hr : db.runs.get? q.runId = some r) :
    Truth q db (q.afterRead r) := by
  unfold CompletionRequest.afterRead
  rw [if_neg (by simp [hq.replayOnly])]
  split_ifs with hterm hcancel
  · exact truth_fail _
  · exact ⟨rfl, rfl⟩
  · dsimp only
    split_ifs with happ hacc
    · exact ⟨rfl, rfl⟩
    · intro _
      obtain ⟨hstatus, hterm⟩ := status_of_accepted hacc (by simpa using happ)
      exact ⟨r, hr, hstatus, hterm⟩
    · exact fun h => absurd h hacc

theorem truth_next (hq : q.Plain) (h : Truth q db phase) :
    Truth q (q.next d env log db phase).2 (q.next d env log db phase).1 := by
  cases phase with
  | read =>
    simp only [CompletionRequest.next]
    split
    · exact truth_fail _
    · rename_i r hr
      split
      · exact truth_fail _
      · exact truth_afterRead hq (readRun_ok hr)
  | replay =>
    simp only [CompletionRequest.next, afterReplay]
    split_ifs
    · split <;> exact h
    · split
      · exact truth_fail _
      · exact h
      · split
        · exact truth_fail _
        · exact h
  | commit tenantId c replayed =>
    simp only [CompletionRequest.next]
    split
    · exact truth_fail _
    · rename_i result db' hcomplete
      have hok : (completeRun d { tenant := tenantId } c env.now env.driver db).1 = .ok result := by
        rw [hcomplete]
      have hclosed : result.accepted → Closed q.runId q.status db' := by
        intro hacc
        have := closed_of_accepted hok hacc
        rwa [hcomplete, h.1, h.2] at this
      split_ifs
      · exact hclosed
      · exact hclosed
  | reread =>
    simp only [CompletionRequest.next]
    split <;> exact h
  | finalize | returned => exact h

end CompletionPhase

/-! ## The reader -/

namespace Emission

def isTerminal : Emission → Bool
  | .event e => e.isTerminal
  | .durableEnd _ _ => true

/-- The status that a terminal event tells the client. -/
def status? : Emission → Option RunStatus
  | .event e => e.outcome.map Prod.fst
  | .durableEnd _ status => some status

end Emission

namespace StreamReader

variable {rd rd' : StreamReader} {e : RunEvent} {fails : Bool} {rest : Option (List RunEvent)}

/-- The generation of a runner's event; policy notices have none of their own. -/
def runnerGeneration (rd : StreamReader) : Emission → Option ℤ
  | .event e => if rd.isPolicyEvent e then none else some e.generation
  | .durableEnd _ _ => none

/-- The generations of the runners' events that were sent. -/
def generations (rd : StreamReader) : List ℤ := rd.emitted.filterMap rd.runnerGeneration

/-- No terminal event was sent, and no event of a runner is newer than the reader's generation. -/
structure Quiet (rd : StreamReader) : Prop where
  silent : ∀ x ∈ rd.emitted, x.isTerminal = false
  ordered : rd.generations.Pairwise (· ≤ ·)
  below : ∀ g ∈ rd.generations, g ≤ rd.generation

/-- The same emissions, of the same run. -/
structure Same (rd rd' : StreamReader) : Prop where
  runId : rd'.runId = rd.runId
  emitted : rd'.emitted = rd.emitted
  generation : rd.generation ≤ rd'.generation

theorem Same.rfl : Same rd rd := ⟨Eq.refl _, Eq.refl _, le_refl _⟩

theorem Same.trans {rd'' : StreamReader} (h : Same rd rd') (h' : Same rd' rd'') : Same rd rd'' :=
  ⟨h'.runId.trans h.runId, h'.emitted.trans h.emitted, h.generation.trans h'.generation⟩

theorem isPolicyEvent_of_runId (h : rd'.runId = rd.runId) : rd'.isPolicyEvent = rd.isPolicyEvent := by
  unfold isPolicyEvent
  rw [h]

theorem Same.generations (h : Same rd rd') : rd'.generations = rd.generations := by
  unfold StreamReader.generations runnerGeneration
  rw [h.emitted, isPolicyEvent_of_runId h.runId]

theorem Same.quiet (h : Same rd rd') (hq : rd.Quiet) : rd'.Quiet where
  silent := h.emitted ▸ hq.silent
  ordered := h.generations ▸ hq.ordered
  below g hg := (hq.below g (h.generations ▸ hg)).trans h.generation

theorem same_goto (pc : StreamPc) : Same rd (rd.goto pc) := ⟨rfl, rfl, le_refl _⟩

theorem same_mark (rd : StreamReader) (e : RunEvent) : Same rd (rd.mark e) := by
  unfold mark
  split_ifs <;> exact ⟨rfl, rfl, le_refl _⟩

theorem same_refreshed (r : Run) : Same rd (rd.refreshed r) := ⟨rfl, rfl, le_max_left _ _⟩

theorem same_withCursor (rd : StreamReader) (e : RunEvent) : Same rd (rd.withCursor e) := by
  unfold withCursor
  split_ifs <;> exact ⟨rfl, rfl, le_refl _⟩

theorem same_resume (rd : StreamReader) (rest : Option (List RunEvent)) :
    Same rd (rd.resume rest) := by
  cases rest <;> exact same_goto _

theorem same_retry : Same rd (rd.retry rest) := by
  cases rest <;> exact ⟨rfl, rfl, le_refl _⟩

@[simp] theorem generation_withCursor : (rd.withCursor e).generation = rd.generation := by
  unfold withCursor
  split_ifs <;> rfl

/-- What is known when `consume` completes the run or sends the event. -/
def Judged (rd rd' : StreamReader) (e : RunEvent) : Verdict → Prop
  | .skip => True
  | .complete q => e.isTerminal = true ∧ rd'.generation ≤ e.generation ∧
      e.outcome.map Prod.fst = some q.status ∧ q.runId = rd.runId ∧ q.Plain
  | .emit => e.isTerminal = false ∧ (rd.isPolicyEvent e = false → rd'.generation = e.generation)

theorem judge_spec (rd : StreamReader) (e : RunEvent) :
    Same rd (rd.judge e).1 ∧ Judged rd (rd.judge e).1 e (rd.judge e).2 := by
  unfold judge
  by_cases hmarked : rd.marked e
  · rw [if_pos hmarked]
    exact ⟨Same.rfl, trivial⟩
  rw [if_neg hmarked]
  by_cases hold : (e.generation < rd.generation && !(e.generation = 0 && rd.isPolicyEvent e))
  · rw [if_pos hold]
    exact ⟨same_mark rd e, trivial⟩
  rw [if_neg hold]
  have hle : rd.isPolicyEvent e = false → rd.generation ≤ e.generation := by
    intro hpolicy
    simpa [hpolicy] using hold
  have hcursor := same_withCursor rd e
  have hpolicy := isPolicyEvent_of_runId hcursor.runId
  dsimp only
  split_ifs with hbefore hterm hnew
  · exact ⟨hcursor.trans (same_mark _ e), trivial⟩
  · cases houtcome : e.outcome with
    | none => exact ⟨hcursor.trans (same_mark _ e), trivial⟩
    | some outcome =>
      obtain ⟨_, _⟩ := outcome
      refine ⟨hcursor, hterm, ?_, by simp [houtcome], hcursor.runId, rfl, rfl⟩
      -- a terminal event is no policy notice
      have hplain : rd.isPolicyEvent e = false := by
        unfold RunEvent.isTerminal at hterm
        unfold isPolicyEvent
        rcases Bool.or_eq_true_iff.1 hterm with h | h <;> simp_all
      simpa using hle hplain
  · refine ⟨⟨hcursor.runId, hcursor.emitted, ?_⟩, by simpa using hterm, fun _ => rfl⟩
    have hlt : (rd.withCursor e).generation < e.generation := by
      simpa using (Bool.and_eq_true_iff.1 hnew).1
    exact hcursor.generation.trans hlt.le
  · refine ⟨hcursor, by simpa using hterm, fun hp => le_antisymm ?_ ?_⟩
    · simpa using hle hp
    · rw [hpolicy, hp] at hnew
      simpa using hnew

theorem generations_emit (x : Emission) (pc : StreamPc) :
    generations { rd with emitted := rd.emitted ++ [x], pc := pc } =
      rd.generations ++ (rd.runnerGeneration x).toList := by
  have hx : [x].filterMap rd.runnerGeneration = (rd.runnerGeneration x).toList := by
    cases h : rd.runnerGeneration x <;> simp [h]
  rw [← hx]
  exact List.filterMap_append

theorem of_runnerGeneration {g : ℤ} (h : rd.runnerGeneration (.event e) = some g) :
    rd.isPolicyEvent e = false ∧ e.generation = g := by
  simp only [runnerGeneration] at h
  split_ifs at h with hp
  exact ⟨by simpa using hp, by simpa using h⟩

/-- Something is sent that is not older than the reader's generation. -/
theorem Quiet.ordered_emit (h : rd.Quiet) {x : Emission} {pc : StreamPc}
    (hx : ∀ g, rd.runnerGeneration x = some g → rd.generation ≤ g) :
    (generations { rd with emitted := rd.emitted ++ [x], pc := pc }).Pairwise (· ≤ ·) := by
  rw [generations_emit, List.pairwise_append]
  refine ⟨h.ordered, ?_, fun g hg g' hg' => ?_⟩
  · cases rd.runnerGeneration x <;> simp
  · exact (h.below g hg).trans (hx g' (by simpa using hg'))

/-- An event that is not terminal is sent. -/
theorem Quiet.emit (h : rd.Quiet) (hterm : e.isTerminal = false)
    (hgen : rd.isPolicyEvent e = false → rd.generation = e.generation) :
    Quiet { rd with emitted := rd.emitted ++ [.event e] } := by
  refine ⟨?_, h.ordered_emit fun g hg => ?_, fun g hg => ?_⟩
  · intro x hx
    rcases List.mem_append.1 hx with hx | hx
    · exact h.silent x hx
    · rw [List.mem_singleton.1 hx]
      exact hterm
  · obtain ⟨hp, rfl⟩ := of_runnerGeneration hg
    exact (hgen hp).le
  · rcases List.mem_append.1 (generations_emit (.event e) rd.pc ▸ hg) with hg | hg
    · exact h.below g hg
    · obtain ⟨hp, rfl⟩ := of_runnerGeneration (by simpa using hg)
      exact (hgen hp).ge

/-- What is known at some points of the call : nothing was sent before the run was read, and the
run is completed with a terminal event only. -/
structure Completes (rd : StreamReader) (db : Db) : Prop where
  fresh : rd.pc = .subscribe ∨ rd.pc = .start → rd.emitted = []
  terminal : ∀ e q phase rest, rd.pc = .completing e q phase rest → e.isTerminal = true ∧
    rd.generation ≤ e.generation ∧ e.outcome.map Prod.fst = some q.status ∧ q.runId = rd.runId ∧
    q.Plain ∧ phase.Truth q db

/-- The points of the call at which nothing particular is known. -/
def plain : StreamPc → Bool
  | .subscribe | .start | .completing _ _ _ _ => false
  | _ => true

theorem completes_of_plain {db : Db} (h : plain rd.pc) : rd.Completes db where
  fresh hpc := by rcases hpc with hpc | hpc <;> simp [hpc, plain] at h
  terminal e q phase rest hpc := by simp [hpc, plain] at h

theorem completes_resume (db : Db) : (rd.resume rest).Completes db := by
  cases rest <;> exact completes_of_plain rfl

theorem completes_retry (db : Db) : (rd.retry rest).Completes db := by
  cases rest <;> exact completes_of_plain rfl

theorem consume_spec (h : rd.Quiet) (db : Db) :
    (rd.consume fails e rest).runId = rd.runId ∧ (rd.consume fails e rest).Quiet ∧
      (rd.consume fails e rest).Completes db := by
  obtain ⟨hsame, hjudged⟩ := judge_spec rd e
  unfold consume
  generalize rd.judge e = j at hsame hjudged
  obtain ⟨rd', v⟩ := j
  have hquiet := hsame.quiet h
  cases v with
  | skip =>
    have hresume := same_resume rd' rest
    exact ⟨hresume.runId.trans hsame.runId, hresume.quiet hquiet, completes_resume db⟩
  | complete =>
    obtain ⟨hterm, hle, hstatus, hrun, hplain⟩ := hjudged
    refine ⟨hsame.runId, (same_goto _).quiet hquiet, ⟨by simp [goto], ?_⟩⟩
    rintro e' q' phase rest' ⟨⟩
    exact ⟨hterm, hle, hstatus, hrun.trans hsame.runId.symm, hplain, trivial⟩
  | emit =>
    obtain ⟨hterm, hgen⟩ := hjudged
    have hpolicy := isPolicyEvent_of_runId hsame.runId
    split_ifs
    · exact ⟨hsame.runId, (same_goto _).quiet hquiet, completes_of_plain rfl⟩
    · have hsent := hquiet.emit hterm fun hp => hgen (hpolicy ▸ hp)
      have hmark := same_mark { rd' with emitted := rd'.emitted ++ [.event e] } e
      have hresume := hmark.trans (same_resume _ rest)
      exact ⟨hresume.runId.trans hsame.runId, hresume.quiet hsent, completes_resume db⟩

end StreamReader

/-! ## Every interleaving -/

namespace Stream

variable {s : Stream} {rd : StreamReader} {env : StreamEnv}

/-- A terminal event ends the stream, and its status is that of the durable run. -/
structure Truth (s : Stream) : Prop where
  /-- At most one terminal event was sent, and nothing after it. -/
  terminal : ∃ sent last, s.reader.emitted = sent ++ last ∧ last.length ≤ 1 ∧
    ∀ x ∈ sent, x.isTerminal = false
  durable : ∀ x ∈ s.reader.emitted, x.isTerminal = true →
    ∃ r, s.db.runs.get? s.reader.runId = some r ∧ x.status? = some r.status
  /-- No event of a runner is older than one that was sent before. -/
  ordered : s.reader.generations.Pairwise (· ≤ ·)

/-- The stream goes on, or was ended by a terminal event. -/
inductive Sound (s : Stream) : Prop
  | streaming (quiet : s.reader.Quiet) (completes : s.reader.Completes s.db)
  | ended (sent : List Emission) (x : Emission) (status : RunStatus) (pc : s.reader.pc = .returned)
    (emitted : s.reader.emitted = sent ++ [x]) (silent : ∀ y ∈ sent, y.isTerminal = false)
    (told : x.status? = some status) (closed : Closed s.reader.runId status s.db)
    (ordered : s.reader.generations.Pairwise (· ≤ ·))

theorem Sound.truth (h : s.Sound) : s.Truth := by
  rcases h with ⟨hquiet, -⟩ | ⟨sent, x, _, -, hemitted, hsilent, htold, hclosed, hordered⟩
  · refine ⟨⟨_, [], (List.append_nil _).symm, by simp, hquiet.silent⟩, fun x hx hterm => ?_,
      hquiet.ordered⟩
    simp [hquiet.silent x hx] at hterm
  · refine ⟨⟨sent, [x], hemitted, by simp, hsilent⟩, fun y hy hterm => ?_, hordered⟩
    obtain ⟨r, hr, rfl, -⟩ := hclosed
    rw [hemitted] at hy
    rcases List.mem_append.1 hy with hy | hy
    · simp [hsilent y hy] at hterm
    · rw [List.mem_singleton.1 hy]
      exact ⟨r, hr, htold⟩

/-- The reader goes on without sending anything. -/
theorem sound_of_same (hquiet : s.reader.Quiet) (hsame : s.reader.Same rd)
    (hcompletes : rd.Completes s.db) : Sound { s with reader := rd } :=
  .streaming (hsame.quiet hquiet) hcompletes

/-- The stream is ended. -/
theorem sound_finish {db : Db} {fails : Bool} {x : Emission}
    {status : RunStatus} (hquiet : rd.Quiet) (htold : x.status? = some status)
    (hclosed : Closed rd.runId status db)
    (hx : ∀ g, rd.runnerGeneration x = some g → rd.generation ≤ g) :
    Sound { s with db := db, reader := rd.finish fails x } := by
  unfold finish
  split_ifs
  · exact .streaming ((same_goto _).quiet hquiet) (completes_of_plain rfl)
  · exact .ended rd.emitted x status rfl rfl hquiet.silent htold hclosed (hquiet.ordered_emit hx)

/-- A step of the completion with a terminal event. -/
theorem sound_completing {e : RunEvent} {q : CompletionRequest}
    {phase : CompletionPhase} {rest : Option (List RunEvent)} (hquiet : s.reader.Quiet)
    (hcompletes : s.reader.Completes s.db) (hpc : s.reader.pc = .completing e q phase rest) :
    (s.proceed d env).Sound := by
  obtain ⟨hterm, hle, hstatus, hrun, hplain, htruth⟩ := hcompletes.terminal e q phase rest hpc
  have hnext : CompletionPhase.Truth q (q.next d env.toCallEnv s.log s.db phase).2
      (q.next d env.toCallEnv s.log s.db phase).1 := CompletionPhase.truth_next hplain htruth
  simp only [proceed, hpc]
  generalize q.next d env.toCallEnv s.log s.db phase = next at hnext
  obtain ⟨phase', db'⟩ := next
  dsimp only at hnext ⊢
  split
  · exact .streaming (same_retry.quiet hquiet) (completes_retry _)
  · split_ifs with hacc
    · refine sound_finish hquiet hstatus (hrun ▸ hnext hacc) fun g hg => ?_
      exact (of_runnerGeneration hg).2 ▸ hle
    · exact .streaming ((same_goto _).quiet hquiet) (completes_of_plain rfl)
  · refine .streaming ((same_goto _).quiet hquiet) ⟨by simp [goto], ?_⟩
    rintro e' q' phase'' rest' ⟨⟩
    exact ⟨hterm, hle, hstatus, hrun, hplain, hnext⟩

section

variable (hquiet : s.reader.Quiet) (hcompletes : s.reader.Completes s.db) (env : StreamEnv)
include hquiet hcompletes

theorem sound_receive : Sound { s with reader := receive s.reader env } := by
  have hplain : ∀ {rd : StreamReader}, s.reader.Same rd → plain rd.pc →
      Sound { s with reader := rd } := fun hsame hpc =>
    sound_of_same hquiet hsame (completes_of_plain hpc)
  unfold receive
  cases hch : s.reader.channel with
  | none => exact hplain (same_goto _) rfl
  | some ch =>
    dsimp only
    by_cases htick : env.tick
    · rw [if_pos htick]
      exact hplain (same_goto _) rfl
    rw [if_neg htick]
    cases ch.queue with
    | nil =>
      dsimp only
      by_cases hclosed : ch.closed
      · rw [if_pos hclosed]
        exact hplain ⟨rfl, rfl, le_refl _⟩ rfl
      · rw [if_neg hclosed]
        exact .streaming hquiet hcompletes
    | cons e queue =>
      have hsame : s.reader.Same { s.reader with channel := some { ch with queue := queue } } :=
        ⟨rfl, rfl, le_refl _⟩
      obtain ⟨-, hquiet', hcompletes'⟩ := consume_spec (hsame.quiet hquiet) s.db
      exact .streaming hquiet' hcompletes'

theorem sound_proceed : (s.proceed d env).Sound := by
  have hgoto : ∀ {rd : StreamReader} {pc : StreamPc}, s.reader.Same rd →
      plain pc → Sound { s with reader := rd.goto pc } := fun hsame hpc =>
    sound_of_same hquiet (hsame.trans (same_goto _))
      (completes_of_plain hpc)
  cases hpc : s.reader.pc
  case completing e q phase rest => exact sound_completing hquiet hcompletes hpc
  all_goals simp only [proceed, hpc]
  case subscribe =>
    refine sound_of_same hquiet ⟨rfl, rfl, le_refl _⟩ ⟨fun _ => hcompletes.fresh (.inl hpc), ?_⟩
    rintro e q phase rest ⟨⟩
  case start =>
    split
    · exact hgoto .rfl rfl
    · have hnone := hcompletes.fresh (.inr hpc)
      refine .streaming ⟨?_, ?_, ?_⟩ (completes_of_plain rfl) <;>
        simp [started, generations, hnone]
  case replay =>
    split
    · exact hgoto .rfl rfl
    · exact hgoto .rfl rfl
  case past events =>
    cases events with
    | nil => exact hgoto .rfl rfl
    | cons =>
      obtain ⟨-, hquiet', hcompletes'⟩ := consume_spec hquiet s.db
      exact .streaming hquiet' hcompletes'
  case refused e rest =>
    split
    · exact .streaming (same_retry.quiet hquiet) (completes_retry _)
    · refine sound_of_same hquiet ?_ (completes_resume _)
      exact ((same_refreshed _).trans (same_mark _ e)).trans
        (same_resume _ rest)
  case refreshReplayed | refreshFailed =>
    split
    · exact hgoto .rfl rfl
    · rename_i r hr
      split_ifs with hterm
      · exact sound_finish ((same_refreshed r).quiet hquiet) rfl ⟨r, readRun_ok hr, rfl, hterm⟩
          fun g hg => by simp [runnerGeneration] at hg
      all_goals exact hgoto (same_refreshed r) rfl
  case wait => exact hgoto .rfl rfl
  case live => exact sound_receive hquiet hcompletes env
  case refreshTick =>
    split
    · exact hgoto .rfl rfl
    · rename_i r hr
      split_ifs
      · exact hgoto (same_refreshed r) rfl
      · exact hgoto (same_refreshed r) rfl
  case returned =>
    exact .streaming hquiet hcompletes

end

/-- A step of others leaves the reader as it is, apart from its channel. -/
theorem Sound.of_env (h : s.Sound) {s' : Stream} {channel : Option Channel}
    (hreader : s'.reader = { s.reader with channel := channel })
    (hclosed : ∀ status, Closed s.reader.runId status s.db → Closed s.reader.runId status s'.db) :
    s'.Sound := by
  have hsame : s.reader.Same s'.reader := by
    rw [hreader]
    exact ⟨rfl, rfl, le_refl _⟩
  have hpc : s'.reader.pc = s.reader.pc := by rw [hreader]
  have hgen : s'.reader.generation = s.reader.generation := by rw [hreader]
  rcases h with ⟨hquiet, hcompletes⟩ |
    ⟨sent, x, status, hreturned, hemitted, hsilent, htold, hstatus, hordered⟩
  · refine .streaming (hsame.quiet hquiet) ⟨fun h => ?_, fun e q phase rest h => ?_⟩
    · rw [hsame.emitted, hcompletes.fresh (hpc ▸ h)]
    · obtain ⟨hterm, hle, hst, hrun, hplain, htruth⟩ :=
        hcompletes.terminal e q phase rest (hpc ▸ h)
      refine ⟨hterm, hgen ▸ hle, hst, hsame.runId ▸ hrun, hplain, ?_⟩
      cases phase with
      | read => trivial
      | replay | commit => exact htruth
      | reread | finalize | returned => exact fun hacc => hrun ▸ hclosed _ (hrun ▸ htruth hacc)
  · exact .ended sent x status (hpc ▸ hreturned) (hsame.emitted ▸ hemitted) hsilent htold
      (hsame.runId ▸ hclosed _ hstatus) (hsame.generations ▸ hordered)

theorem Sound.step (h : s.Sound) (ev : StreamEvent) : (s.step d ev).Sound := by
  cases ev with
  | publish | close => exact h.of_env rfl fun _ => id
  | beginRunAttempt ctx generation env =>
    exact h.of_env rfl fun _ hclosed => hclosed.beginRunAttempt generation
  | completeRun =>
    exact h.of_env rfl fun _ hclosed => Closed.completeRun hclosed
  | proceed env =>
    rcases h with ⟨hquiet, hcompletes⟩ | _
    · exact sound_proceed hquiet hcompletes env
    · have hstop : s.proceed d env = s := by simp [proceed, *]
      simp only [Stream.step, hstop]
      exact .ended _ _ _ ‹_› ‹_› ‹_› ‹_› ‹_› ‹_›
  | abandon =>
    rcases h with ⟨hquiet, _⟩ |
      ⟨sent, x, status, hreturned, hemitted, hsilent, htold, hstatus, hordered⟩
    · exact .streaming ((same_goto _).quiet hquiet)
        (completes_of_plain rfl)
    · exact .ended sent x status rfl hemitted hsilent htold hstatus hordered

end Stream

/-- For every log, durable run and subscription, and every interleaving of publishes, new attempts,
completions and the steps of `replayRunEvents` : at most one terminal event is sent and nothing
after it, its status is that of the durable run, and the events of the runners are sent in the
order of their generations. -/
theorem stream_truth (d : Dialect) (db : Db) (log : List RunEvent) (closed : Bool)
    (runId : String) (ctx : Ctx) (since : Option ℤ) (events : List StreamEvent) :
    (Trace.run (Stream.step d) events
      ⟨db, log, closed, { runId := runId, ctx := ctx, since := since }⟩).Truth := by
  have hstart : Stream.Sound ⟨db, log, closed, { runId := runId, ctx := ctx, since := since }⟩ := by
    refine .streaming ⟨by simp, ?_, ?_⟩ ⟨fun _ => rfl, by simp⟩ <;>
      simp [generations]
  have hstep : ∀ ev (s : Stream), s.Sound → (s.step d ev).Sound := fun ev _ hs => hs.step ev
  exact (Trace.invariant_of_step hstep events hstart).truth

end Runkite
