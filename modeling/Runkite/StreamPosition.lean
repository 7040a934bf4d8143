import Runkite.RunRow
import Runkite.StreamFront

/-!
# The position of a stream in the log

`replayRunEvents` looks at the log, at its channel and at the durable run at different moments, so
an event can be missed in two ways. An event that is published after the log was replayed and
before the run's completion is committed is not sent if the run is read next : the end event is
made up at once. And an event that the full channel dropped is taken for one that was sent as soon
as a later one of its generation arrives. `Stream.fits` excludes the two.

The replay and the channel are segments of the log that begin at or before the front of the reader
(`Position`). Once the completion is committed, the replay that precedes the end event reaches
beyond all events in question (`Covers`).
-/

open Transaction (Driver)

namespace Runkite

open CompletionRequest

/-! ## The condition -/

/-- The events have the same place in their generation. -/
def RunEvent.same (a b : RunEvent) : Bool := a.generation = b.generation && a.seq = b.seq

/-- The event was consumed, or is in the replay that is being consumed, or the log will be replayed
before the run is looked at. -/
def StreamReader.accounts (rd : StreamReader) (e : RunEvent) : Bool :=
  rd.marked e ||
    match rd.pc with
    | .past rest => rest.any e.same
    | .completing e' _ _ (some rest) | .refused e' (some rest) => e.same e' || rest.any e.same
    | .refreshReplayed | .refreshFailed => false
    | _ => true

namespace Stream

/-- The attempt generation of the run. -/
def attempt (s : Stream) : ℤ :=
  match s.db.runs.get? s.reader.runId with
  | some r => metadataGeneration r.metadataMap attemptGenerationKey
  | none => 0

/-- The durable run is terminal. -/
def terminal (s : Stream) : Bool :=
  match s.db.runs.get? s.reader.runId with
  | some r => r.status.terminal
  | none => false

/-- The events of a generation are published in the order of their positive sequence numbers, none
after a terminal event, by an attempt that was started, and find room in the channel; policy notices
have ids of their own. Generations are numbers that the store reads back. A completion by another
call is committed when the reader accounts for all events of its generation, and has the status of
the terminal event, if there is one. A replay does not fail. -/
def fits (d : Dialect) : StreamEvent → Stream → Bool
  | .publish e, s =>
    0 < e.seq && e.generation ≤ s.attempt &&
      s.log.all (fun a => a.generation ≠ e.generation || (a.seq < e.seq && !a.isTerminal)) &&
      s.log.all (fun a => !s.reader.isPolicyEvent e || a.eventId ≠ e.eventId) &&
      s.reader.channel.all fun ch => ch.closed || ch.queue.length < Channel.capacity
  | .beginRunAttempt _ generation _, _ => |generation| ≤ 2 ^ 53
  | .completeRun ctx c env, s =>
    s.terminal || !(s.step d (.completeRun ctx c env)).terminal ||
      s.log.all fun e => e.generation ≠ s.attempt || (s.reader.accounts e &&
        (!e.isTerminal || e.outcome.map Prod.fst = some c.status))
  | .proceed env, s =>
    match s.reader.pc with
    | .replay => env.replayError.isNone
    | _ => true
  | _, _ => true

end Stream

/-! ## Completion calls on the row -/

variable {d : Dialect} {log : List RunEvent} {g g' : ℤ} {status status' : RunStatus}

namespace CompletionPhase

variable {env : CallEnv} {db : Db} {q : CompletionRequest} {phase : CompletionPhase}

/-- What is known while the run is completed with a terminal event. -/
def OnRow (q : CompletionRequest) (g : ℤ) (status : RunStatus) : CompletionPhase → Prop
  | .read => True
  | .replay _ c | .commit _ c _ => c.runId = q.runId ∧ c.status = q.status ∧
      c.generation = q.generation ∧ c.cancelCurrentAttempt = false
  | .reread _ result | .finalize result => result.accepted = true ∧ q.generation = g ∧
      status = q.status
  | .returned _ _ => False

/-- What a step of the call leads to. -/
def Answers (q : CompletionRequest) (g : ℤ) (status status' : RunStatus) : CompletionPhase → Prop
  | .returned _ (some _) => True
  | .returned result none =>
    result.accepted = true ∧ q.generation = g ∧ status' = q.status ∨
      result.accepted = false ∧ status' = status ∧
        (q.generation ≠ g ∨ status.terminal = true ∧ status ≠ q.status)
  | phase => OnRow q g status' phase

theorem onRow_row (h : OnRow q g status phase) (hterm : q.status.terminal)
    (hrow : status.terminal → g' = g ∧ status' = status) : OnRow q g' status' phase := by
  cases phase with
  | reread | finalize =>
    obtain ⟨hacc, hgen, rfl⟩ := h
    obtain ⟨rfl, rfl⟩ := hrow hterm
    exact ⟨hacc, hgen, rfl⟩
  | read => trivial
  | replay | commit | returned => exact h

theorem answers_afterRead (hq : q.Plain) (hterm : q.status.terminal)
    (hrow : RowIs q.runId g status db) {r : Run} (hr : db.runs.get? q.runId = some r) :
    Answers q g status status (q.afterRead r) := by
  obtain ⟨r', m, hr', hf, -, -⟩ := id hrow
  obtain rfl : r' = r := Option.mem_unique hr' hr
  have hm : r'.metadataMap = m := by rw [Run.metadataMap, hf.decoded]; rfl
  have hcheck := hrow.check (c := q.completion q.generation) hr hf.decoded hterm
  unfold afterRead
  rw [if_neg (by simp [hq.replayOnly]), if_neg (by simp [hterm]), if_neg (by simp [hq.cancel]), hm]
  rw [hcheck]
  have hgen : (q.completion q.generation).generation = q.generation := rfl
  have hstatus : (q.completion q.generation).status = q.status := rfl
  rw [hgen, hstatus]
  by_cases hne : q.generation ≠ g
  · rw [if_pos hne]
    exact .inr ⟨rfl, rfl, .inl hne⟩
  rw [if_neg hne]
  have hg : q.generation = g := not_not.1 hne
  by_cases hclosed : status.terminal
  · rw [if_pos hclosed]
    by_cases hst : status = q.status
    · subst hst
      simp only [decide_true, Bool.false_eq_true, if_false, if_true]
      exact ⟨rfl, hg, rfl⟩
    · simp only [hst, decide_false, Bool.false_eq_true, if_false]
      exact .inr ⟨rfl, rfl, .inr ⟨hclosed, hst⟩⟩
  · rw [if_neg hclosed]
    exact ⟨rfl, rfl, rfl, hq.cancel⟩

theorem answers_next (d : Dialect) (env : CallEnv) (log : List RunEvent) (hq : q.Plain)
    (hterm : q.status.terminal) (hrow : RowIs q.runId g status db)
    (h : OnRow q g status phase) : ∃ status', RowIs q.runId g status' (q.next d env log db phase).2 ∧
      (status' = status ∨ status.terminal = false ∧ status' = q.status ∧ q.generation = g) ∧
      Answers q g status status' (q.next d env log db phase).1 := by
  cases phase with
  | read =>
    refine ⟨status, ?_, .inl rfl, ?_⟩
    · simp only [next]
      split
      · exact hrow
      · split <;> exact hrow
    · simp only [next]
      split
      · trivial
      · rename_i r hr
        split
        · trivial
        · exact answers_afterRead hq hterm hrow (readRun_ok hr)
  | replay tenantId c =>
    refine ⟨status, hrow, .inl rfl, ?_⟩
    change Answers _ _ _ _ (afterReplay tenantId c _ _)
    unfold afterReplay
    rw [if_neg (by simp [h.2.2.2])]
    split
    · trivial
    · exact h
    · split
      · trivial
      · exact h
  | commit tenantId c replayed =>
    obtain ⟨hrun, hst, hgen, hcancel⟩ := h
    rw [← hrun] at hrow ⊢
    have hcterm : c.status.terminal := hst ▸ hterm
    have hkept : (completeRun d { tenant := tenantId } c env.now env.driver db).2 = db ∨
        status.terminal = false ∧ q.generation = g ∧ RowIs c.runId g q.status
          (completeRun d { tenant := tenantId } c env.now env.driver db).2 := by
      rcases hrow.of_completeRun d { tenant := tenantId } env.now env.driver with hsame | hnew
      · exact .inl hsame
      · have hown : c.takesCurrent = false := by simp [RunCompletion.takesCurrent, hcancel]
        exact .inr ⟨hnew.1, hgen ▸ hnew.2.2.1 hown, hst ▸ hnew.2.2.2⟩
    simp only [next]
    cases hcomplete : completeRun d { tenant := tenantId } c env.now env.driver db with
    | mk answer db' =>
      rw [hcomplete] at hkept
      cases answer with
      | error =>
        rcases hkept with rfl | ⟨hopen, hg, hrow'⟩
        · exact ⟨status, hrow, .inl rfl, trivial⟩
        · exact ⟨q.status, hrow', .inr ⟨hopen, rfl, hg⟩, trivial⟩
      | ok result =>
        have hok : (completeRun d { tenant := tenantId } c env.now env.driver db).1 = .ok result := by
          rw [hcomplete]
        rcases hrow.result hcterm hcancel hok with ⟨hacc, hg, hrow'⟩ | ⟨hacc, hwhy, hsame⟩
        · rw [hcomplete, hst] at hrow'
          refine ⟨q.status, hrow', ?_, ?_⟩
          · rcases hkept with rfl | ⟨hopen, hg', -⟩
            · exact .inl (hrow'.unique hrow).2
            · exact .inr ⟨hopen, rfl, hg'⟩
          · simp only [hacc, if_true]
            exact ⟨hacc, hgen ▸ hg, rfl⟩
        · rw [hcomplete] at hsame
          obtain rfl : db' = db := hsame
          refine ⟨status, hrow, .inl rfl, ?_⟩
          simp only [hacc, Bool.false_eq_true, if_false]
          exact .inr ⟨hacc, rfl, by rw [← hgen, ← hst]; exact hwhy⟩
  | reread =>
    refine ⟨status, ?_, .inl rfl, ?_⟩
    · simp only [next]
      split <;> exact hrow
    · simp only [next]
      split
      · trivial
      · exact h
  | finalize =>
    refine ⟨status, hrow, .inl rfl, ?_⟩
    simp only [next]
    cases env.finalizeError with
    | none => exact .inl h
    | some => trivial
  | returned => exact h.elim

end CompletionPhase

/-! ## Positions in the log -/

/-- What is left in the channel is a segment of the log that begins at or before `bound`, up to the
end of the log as long as the channel is open. -/
def ChannelFrom (rd : StreamReader) (log : List RunEvent) (bound : ℕ) : Prop :=
  ∀ ch, rd.channel = some ch → ∃ i n, ch.queue = (log.take n).drop i ∧ i ≤ bound ∧
    i ≤ log.length ∧ n ≤ log.length ∧ (ch.closed = false → n = log.length)

/-- The events of the completed generation among the first `c` of the log, all of them before
`bound`. -/
def Covers (c : Option ℕ) (g : ℤ) (log : List RunEvent) (bound : ℕ) : Prop :=
  ∀ n, c = some n → ∀ i e, i < n → log[i]? = some e → e.generation = g → i < bound

/-- What is left to consume after the event at the front. -/
def RestFrom (c : Option ℕ) (g : ℤ) (rd : StreamReader) (log : List RunEvent) (front : ℕ) :
    Option (List RunEvent) → Prop
  | some rest => ∃ n, rest = (log.take n).drop (front + 1) ∧ front < n ∧ n ≤ log.length ∧
      ChannelFrom rd log n ∧ Covers c g log n
  | none => ChannelFrom rd log (front + 1)

/-- What the position in the call says about the log. -/
def Position (c : Option ℕ) (g : ℤ) (status : RunStatus) (rd : StreamReader) (log : List RunEvent)
    (front : ℕ) : StreamPc → Prop
  | .subscribe => rd.channel = none
  | .start | .replay | .wait => ChannelFrom rd log log.length
  | .past rest => ∃ n k, rest = (log.take n).drop k ∧ k ≤ front ∧ n ≤ log.length ∧
      ChannelFrom rd log n ∧ Covers c g log (max n front)
  | .completing e q phase rest => log[front]? = some e ∧ CompletesWith rd e q ∧
      phase.OnRow q g status ∧ RestFrom c g rd log front rest
  | .refused e rest => log[front]? = some e ∧ Excused rd g status e ∧
      RestFrom c g rd log front rest
  | .refreshReplayed => ChannelFrom rd log front ∧ Covers c g log front
  | .live | .refreshTick => ChannelFrom rd log front
  | .refreshFailed => False
  | .returned => True

/-- The reader follows the log. With `c = some n` the completion was committed when the log had `n`
events. -/
structure Tracks (c : Option ℕ) (g : ℤ) (status : RunStatus) (front : ℕ) (s : Stream) : Prop where
  row : RowIs s.reader.runId g status s.db
  log : LogOk s.reader s.log
  started : ∀ e ∈ s.log, e.generation ≤ g
  length : front ≤ s.log.length
  follows : Follows s.reader s.log front g status
  position : Position c g status s.reader s.log front s.reader.pc
  committed : c.isSome = status.terminal
  told : ∀ n, c = some n → n ≤ s.log.length ∧ ∀ e ∈ s.log.take n, e.generation = g →
    e.isTerminal = true → e.outcome.map Prod.fst = some status

/-- The events that were sent as they are. -/
def StreamReader.events (rd : StreamReader) : List RunEvent :=
  rd.emitted.filterMap fun
    | .event e => some e
    | .durableEnd _ _ => none

/-- The stream was ended, and everything that it had to send was sent. -/
structure Finished (c : Option ℕ) (g : ℤ) (status : RunStatus) (s : Stream) : Prop where
  pc : s.reader.pc = .returned
  row : RowIs s.reader.runId g status s.db
  log : LogOk s.reader s.log
  started : ∀ e ∈ s.log, e.generation ≤ g
  terminal : status.terminal = true
  sent : s.reader.events.Sublist s.log
  complete : ∃ n, c = some n ∧ n ≤ s.log.length ∧ ∀ e ∈ s.log.take n, e.generation = g →
    (∀ since, s.reader.since = some since → since < e.seq) → e ∈ s.reader.events

variable {c : Option ℕ} {rd rd' : StreamReader} {front bound bound' : ℕ} {e : RunEvent}
  {rest : Option (List RunEvent)}

theorem ChannelFrom.mono (h : ChannelFrom rd log bound) (hle : bound ≤ bound') :
    ChannelFrom rd log bound' := by
  intro ch hch
  obtain ⟨i, n, hqueue, hi, hrest⟩ := h ch hch
  exact ⟨i, n, hqueue, hi.trans hle, hrest⟩

theorem ChannelFrom.of_channel (h : ChannelFrom rd log bound) (hch : rd'.channel = rd.channel) :
    ChannelFrom rd' log bound := fun ch hch' => h ch (hch ▸ hch')

theorem Covers.mono (h : Covers c g log bound) (hle : bound ≤ bound') : Covers c g log bound' :=
  fun n hn i e hi he hgen => (h n hn i e hi he hgen).trans_le hle

theorem covers_none : Covers none g log bound := fun n hn => by simp at hn

section

variable (h : RestFrom c g rd log front rest)
include h

/-- The channel while an event is consumed. -/
theorem RestFrom.channel (he : log[front]? = some e) : ChannelFrom rd log log.length := by
  cases rest with
  | none => exact ChannelFrom.mono h (List.getElem?_eq_some_iff.1 he).1
  | some =>
    obtain ⟨n, -, -, hn, hchannel, -⟩ := h
    exact hchannel.mono hn

/-- The event at the front was consumed. -/
theorem RestFrom.position : Position c g status rd log (front + 1) (resumePc rest) := by
  cases rest with
  | none => exact h
  | some =>
    obtain ⟨n, hrest, -, hn, hchannel, hcov⟩ := h
    exact ⟨n, front + 1, hrest, le_rfl, hn, hchannel, hcov.mono (le_max_left _ _)⟩

end

/-- What holds of the channel of `rd` holds of that of `rd'`, where the log goes on with `more`. -/
structure Carries (c : Option ℕ) (g : ℤ) (rd rd' : StreamReader) (log more : List RunEvent) :
    Prop where
  runId : rd'.runId = rd.runId
  since : rd'.since = rd.since
  detached : rd.channel = none → rd'.channel = none
  channel : ∀ {bound}, ChannelFrom rd log bound → ChannelFrom rd' (log ++ more) bound
  covers : ∀ {bound}, Covers c g log bound → Covers c g (log ++ more) bound

section

variable {more : List RunEvent} (h : Carries c g rd rd' log more)
include h

theorem Carries.restFrom (hrest : RestFrom c g rd log front rest) :
    RestFrom c g rd' (log ++ more) front rest := by
  cases rest with
  | none => exact h.channel hrest
  | some =>
    obtain ⟨n, hrest, hlt, hn, hchannel, hcov⟩ := hrest
    exact ⟨n, by rw [List.take_append_of_le_length hn, hrest], hlt, by simp; omega,
      h.channel hchannel, h.covers hcov⟩

theorem Carries.position {pc : StreamPc} (hpos : Position c g status rd log front pc) :
    Position c g status rd' (log ++ more) front pc := by
  have hfront : ∀ {e}, log[front]? = some e → (log ++ more)[front]? = some e := by
    intro e he
    rw [List.getElem?_append_left (List.getElem?_eq_some_iff.1 he).1, he]
  cases pc with
  | subscribe => exact h.detached hpos
  | start | replay | wait => exact (h.channel hpos).mono (by simp)
  | live | refreshTick => exact h.channel hpos
  | past =>
    obtain ⟨n, k, hrest, hk, hn, hchannel, hcov⟩ := hpos
    exact ⟨n, k, by rw [List.take_append_of_le_length hn, hrest], hk, by simp; omega,
      h.channel hchannel, h.covers hcov⟩
  | completing =>
    obtain ⟨he, hq, hphase, hrest⟩ := hpos
    exact ⟨hfront he, ⟨hq.plain, hq.runId.trans h.runId.symm, hq.generation, hq.terminal,
      hq.outcome, hq.status⟩, hphase, h.restFrom hrest⟩
  | refused =>
    obtain ⟨he, _, hrest⟩ := hpos
    refine ⟨hfront he, ?_, h.restFrom hrest⟩
    rwa [Excused, h.since]
  | refreshReplayed => exact ⟨h.channel hpos.1, h.covers hpos.2⟩
  | refreshFailed => exact hpos
  | returned => trivial

end

theorem SameEnds.carries (h : SameEnds rd rd') : Carries c g rd rd' log [] where
  runId := h.runId
  since := h.since
  detached := h.channel.trans
  channel hbound := by simpa using ChannelFrom.of_channel hbound h.channel
  covers hcov := by simpa using hcov

/-- A position with the channel as it was. -/
theorem Position.of_same {pc : StreamPc} (h : Position c g status rd log front pc)
    (hends : SameEnds rd rd') : Position c g status rd' log front pc := by
  simpa using hends.carries.position h

/-- What has to be covered at a position. -/
def CoversAt (c : Option ℕ) (g : ℤ) (log : List RunEvent) (front : ℕ) : StreamPc → Prop
  | .past rest => ∀ n k, rest = (log.take n).drop k → k ≤ front → Covers c g log (max n front)
  | .completing _ _ _ (some rest) | .refused _ (some rest) =>
    ∀ n, rest = (log.take n).drop (front + 1) → front < n → Covers c g log n
  | .refreshReplayed => Covers c g log front
  | _ => True

theorem coversAt_none (pc : StreamPc) : CoversAt none g log front pc := by
  unfold CoversAt
  split
  · exact fun _ _ _ _ => covers_none
  · exact fun _ _ _ => covers_none
  · exact fun _ _ _ => covers_none
  · exact covers_none
  · trivial

/-- What is left may have to cover something else. -/
theorem RestFrom.covering {c' : Option ℕ} {rest : Option (List RunEvent)}
    (h : RestFrom c g rd log front rest)
    (hcov : ∀ events, rest = some events → ∀ n, events = (log.take n).drop (front + 1) →
      front < n → Covers c' g' log n) : RestFrom c' g' rd log front rest := by
  cases rest with
  | none => exact h
  | some events =>
    obtain ⟨n, hrest, hlt, hn, hchannel, -⟩ := h
    exact ⟨n, hrest, hlt, hn, hchannel, hcov events rfl n hrest hlt⟩

/-- The row of the run changes, and with it perhaps what has to be covered. -/
theorem Position.row {c' : Option ℕ} {pc : StreamPc} (h : Position c g status rd log front pc)
    (hg : g ≤ g') (hrow : status.terminal → g' = g ∧ status' = status)
    (hcov : CoversAt c' g' log front pc) : Position c' g' status' rd log front pc := by
  have hstatus : status.terminal → status' = status := fun h => (hrow h).2
  cases pc with
  | past =>
    obtain ⟨n, k, hrest, hk, hn, hchannel, -⟩ := h
    exact ⟨n, k, hrest, hk, hn, hchannel, hcov n k hrest hk⟩
  | completing =>
    obtain ⟨he, hq, hphase, hrest⟩ := h
    refine ⟨he, hq, CompletionPhase.onRow_row hphase hq.status hrow, hrest.covering ?_⟩
    rintro events rfl
    exact hcov
  | refused =>
    obtain ⟨he, hex, hrest⟩ := h
    refine ⟨he, hex.row hg hstatus, hrest.covering ?_⟩
    rintro events rfl
    exact hcov
  | refreshReplayed => exact ⟨h.1, hcov⟩
  | _ => exact h

/-- Events with the same place are at the same position. -/
theorem LogOk.index_eq {i j : ℕ} {a b : RunEvent} (hlog : LogOk rd log) (ha : log[i]? = some a)
    (hb : log[j]? = some b) (hsame : a.same b) : i = j := by
  obtain ⟨hgen, hseq⟩ : a.generation = b.generation ∧ a.seq = b.seq := by
    simpa [RunEvent.same] using hsame
  have hle := (hlog.seq_le_iff ha hb hgen).1 hseq.le
  have hge := (hlog.seq_le_iff hb ha hgen.symm).1 hseq.ge
  omega

/-- An event with the same place as one of a segment of the log. -/
theorem LogOk.lt_of_any {i k n : ℕ} (hlog : LogOk rd log) (he : log[i]? = some e)
    (hany : ((log.take n).drop k).any e.same) : i < n := by
  obtain ⟨b, hb, hsame⟩ := List.any_eq_true.1 hany
  obtain ⟨j, hj⟩ := List.mem_iff_getElem?.1 hb
  rw [List.getElem?_drop, List.getElem?_take] at hj
  split_ifs at hj with hlt
  have := hlog.index_eq he hj hsame
  omega

/-- What the reader accounts for is covered. -/
theorem coversAt_of_accounts (hlog : LogOk rd log) (hmarks : Marks rd log front)
    (hpos : Position c g status rd log front rd.pc)
    (h : ∀ e ∈ log, e.generation = g' → rd.accounts e = true) :
    CoversAt (some log.length) g' log front rd.pc := by
  have hat : ∀ {i e}, log[i]? = some e → e.generation = g' → i < front ∨
      (match rd.pc with
        | .past rest => rest.any e.same
        | .completing e' _ _ (some rest) | .refused e' (some rest) => e.same e' || rest.any e.same
        | .refreshReplayed | .refreshFailed => false
        | _ => true) = true := by
    intro i e he hgen
    have hacc := h e (List.mem_of_getElem? he) hgen
    unfold StreamReader.accounts at hacc
    rcases Bool.or_eq_true_iff.1 hacc with hm | hrest
    · exact .inl ((hmarks.marked i e he).1 hm)
    · exact .inr hrest
  unfold CoversAt
  split
  · rename_i rest hpc
    rintro n k rfl hk m ⟨⟩ i e hi he hgen
    rcases hat he hgen with hlt | hany
    · omega
    · simp only [hpc] at hany
      have := hlog.lt_of_any he hany
      omega
  case h_2 | h_3 =>
    rename_i rest hpc
    rintro n rfl hlt m ⟨⟩ i e hi he hgen
    rw [hpc] at hpos
    rcases hat he hgen with hlt' | hany
    · omega
    · simp only [hpc] at hany
      rcases Bool.or_eq_true_iff.1 hany with hsame | hrest
      · have := hlog.index_eq he hpos.1 hsame
        omega
      · exact hlog.lt_of_any he hrest
  · rename_i hpc
    rintro m ⟨⟩ i e hi he hgen
    rcases hat he hgen with hlt | hany
    · exact hlt
    · simp [hpc] at hany
  · trivial

/-! ## Steps of others -/


/-- The reader with an event sent to its channel. -/
def StreamReader.sent (rd : StreamReader) (e : RunEvent) : StreamReader :=
  { rd with channel := rd.channel.map (Channel.send e) }

theorem ChannelFrom.publish (h : ChannelFrom rd log bound)
    (hroom : rd.channel.all fun ch => ch.closed || ch.queue.length < Channel.capacity) :
    ChannelFrom (rd.sent e) (log ++ [e]) bound := by
  intro ch' hch'
  obtain ⟨ch, hch, rfl⟩ := Option.map_eq_some_iff.1 hch'
  obtain ⟨i, n, hqueue, hi, hi', hn, hopen⟩ := h ch hch
  unfold Channel.send
  have hlength : (log ++ [e]).length = log.length + 1 := by simp
  by_cases hclosed : ch.closed
  · rw [if_pos hclosed]
    exact ⟨i, n, by rw [hqueue, List.take_append_of_le_length hn], hi, by omega, by omega, by simp [hclosed]⟩
  · have hclosed : ch.closed = false := by simpa using hclosed
    have hlt : ch.queue.length < Channel.capacity := by simpa [hch, hclosed] using hroom
    obtain rfl := hopen hclosed
    rw [if_neg (by simp [hclosed]), if_pos hlt]
    refine ⟨i, log.length + 1, ?_, hi, by omega, by omega, fun _ => hlength.symm⟩
    rw [hqueue, ← hlength, List.take_length, List.take_length, List.drop_append_of_le_length hi']

theorem Covers.append (h : Covers c g log bound) (hc : ∀ n, c = some n → n ≤ log.length) :
    Covers c g (log ++ [e]) bound := by
  intro n hn i e' hi he' hgen
  have hlt : i < log.length := hi.trans_le (hc n hn)
  rw [List.getElem?_append_left hlt] at he'
  exact h n hn i e' hi he' hgen

theorem carries_publish
    (hroom : rd.channel.all fun ch => ch.closed || ch.queue.length < Channel.capacity)
    (hc : ∀ n, c = some n → n ≤ log.length) : Carries c g rd (rd.sent e) log [e] :=
  ⟨rfl, rfl, fun h => by simp [StreamReader.sent, h], fun h => h.publish hroom,
    fun h => h.append hc⟩

/-- The channel is closed. -/
theorem ChannelFrom.close (h : ChannelFrom rd log bound) : ChannelFrom
    { rd with channel := rd.channel.map fun ch => { ch with closed := true } } log bound := by
  intro ch' hch'
  obtain ⟨ch, hch, rfl⟩ := Option.map_eq_some_iff.1 hch'
  obtain ⟨i, n, hqueue, hi, hi', hn, -⟩ := h ch hch
  exact ⟨i, n, hqueue, hi, hi', hn, by simp⟩

theorem carries_close : Carries c g rd
    { rd with channel := rd.channel.map fun ch => { ch with closed := true } } log [] :=
  ⟨rfl, rfl, fun h => by simp [h], fun h => by simpa using h.close, fun h => by simpa using h⟩

variable {s : Stream}

theorem RowIs.attempt (h : RowIs s.reader.runId g status s.db) :
    s.attempt = g ∧ s.terminal = status.terminal := by
  obtain ⟨r, m, hr, hf, rfl, -⟩ := h
  unfold Stream.attempt Stream.terminal
  rw [hr]
  refine ⟨?_, rfl⟩
  simp only [Run.metadataMap, hf.decoded]
  exact hf.attempt.metadataGeneration hf.small

/-- A publish that fits keeps the log well formed. -/
theorem LogOk.publish (h : LogOk s.reader s.log) (hfits : s.fits d (.publish e)) :
    LogOk s.reader (s.log ++ [e]) := by
  simp only [Stream.fits, Bool.and_eq_true, decide_eq_true_eq, List.all_eq_true, Bool.or_eq_true,
    Bool.not_eq_true', ne_eq] at hfits
  obtain ⟨⟨⟨⟨hpos, -⟩, hseq⟩, hids⟩, -⟩ := hfits
  have hsnoc : ∀ {R : RunEvent → RunEvent → Prop}, s.log.Pairwise R → (∀ a ∈ s.log, R a e) →
      (s.log ++ [e]).Pairwise R := fun hlog hlast =>
    List.pairwise_append.2 ⟨hlog, List.pairwise_singleton _ _, by simpa using hlast⟩
  refine ⟨fun a ha => ?_, hsnoc h.increasing fun a ha hgen => ?_,
    hsnoc h.notices fun a ha _ hpolicy => ?_, hsnoc h.last fun a ha hterm hgen => ?_⟩
  · rcases List.mem_append.1 ha with ha | ha
    · exact h.positive a ha
    · rw [List.mem_singleton.1 ha]
      exact hpos
  · rcases hseq a ha with hne | hlt
    · exact absurd hgen hne
    · exact hlt.1
  · rcases hids a ha with hno | hne
    · simp [hpolicy] at hno
    · exact hne
  · rcases hseq a ha with hne | hlt
    · exact absurd hgen hne
    · simp [hterm] at hlt

section

variable (h : Tracks c g status front s)
include h

theorem Tracks.publish (hfits : s.fits d (.publish e)) :
    Tracks c g status front (s.step d (.publish e)) := by
  have hlog := h.log.publish hfits
  have hsame : SameMarks s.reader (s.reader.sent e) := ⟨rfl, rfl, rfl, rfl⟩
  simp only [Stream.fits, Bool.and_eq_true, decide_eq_true_eq] at hfits
  obtain ⟨⟨⟨⟨-, hgen⟩, -⟩, -⟩, hroom⟩ := hfits
  have hc : ∀ n, c = some n → n ≤ s.log.length := fun n hn => (h.told n hn).1
  refine ⟨h.row, hlog.of_runId rfl, List.forall_mem_append.2 ⟨h.started,
    List.forall_mem_singleton.2 (h.row.attempt.1 ▸ hgen)⟩, ?_, ?_, ?_, h.committed, fun n hn => ?_⟩
  · simpa [Stream.step] using h.length.trans (Nat.le_succ _)
  · exact (h.follows.publish h.length hlog).of_same hsame rfl h.follows.generation
  · exact (carries_publish hroom hc).position h.position
  · obtain ⟨hle, htold⟩ := h.told n hn
    refine ⟨by simpa [Stream.step] using hle.trans (Nat.le_succ _), ?_⟩
    simpa [Stream.step, List.take_append_of_le_length hle] using htold

theorem Tracks.close : Tracks c g status front (s.step d .close) :=
  ⟨h.row, h.log.of_runId rfl, h.started, h.length,
    h.follows.of_same ⟨rfl, rfl, rfl, rfl⟩ rfl h.follows.generation,
    by simpa [Stream.step] using carries_close.position h.position, h.committed, h.told⟩

theorem Tracks.abandon : Tracks c g status front (s.step d .abandon) :=
  ⟨h.row, h.log.of_runId rfl, h.started, h.length, h.follows.goto _, trivial, h.committed, h.told⟩

end

theorem Finished.publish (h : Finished c g status s) (hfits : s.fits d (.publish e)) :
    Finished c g status (s.step d (.publish e)) := by
  have hlog := h.log.publish hfits
  simp only [Stream.fits, Bool.and_eq_true, decide_eq_true_eq] at hfits
  obtain ⟨⟨⟨⟨-, hgen⟩, -⟩, -⟩, -⟩ := hfits
  obtain ⟨n, hn, hle, hall⟩ := h.complete
  refine ⟨h.pc, h.row, hlog.of_runId rfl, List.forall_mem_append.2 ⟨h.started,
    List.forall_mem_singleton.2 (h.row.attempt.1 ▸ hgen)⟩, h.terminal,
    h.sent.trans (List.sublist_append_left _ _), n, hn, ?_, ?_⟩
  · simpa [Stream.step] using hle.trans (Nat.le_succ _)
  · intro a ha
    rw [Stream.step, List.take_append_of_le_length hle] at ha
    exact hall a ha

end Runkite
