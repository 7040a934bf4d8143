import Runkite.StreamPosition

/-!
# When a stream is complete

In every run whose steps fit (`Stream.fits`), a stream that was ended by a terminal event is complete
(`stream_complete`). Otherwise the end event can overtake an event (`stream_misses_event`).
-/

open Transaction (Driver)

namespace Runkite

variable {c c' : Option ℕ} {g g' : ℤ} {status status' : RunStatus} {front front' k : ℕ}
  {s : Stream} {rd : StreamReader} {e : RunEvent} {rest : Option (List RunEvent)} {d : Dialect}
  {env : StreamEnv} {r : Run} {log : List RunEvent} {a : RunEvent} {s' : Stream}

/-! ## Moves of the reader -/

section

variable (h : Tracks c g status front s)
include h

theorem Tracks.reader (hrun : rd.runId = s.reader.runId)
    (hlength : front' ≤ s.log.length) (hfollows : Follows rd s.log front' g status)
    (hpos : Position c g status rd s.log front' rd.pc) :
    Tracks c g status front' { s with reader := rd } where
  row := hrun ▸ h.row
  log := h.log.of_runId hrun
  started := h.started
  length := hlength
  follows := hfollows
  position := hpos
  committed := h.committed
  told := h.told

theorem Tracks.goto (pc : StreamPc) (hpos : Position c g status s.reader s.log front pc) :
    Tracks c g status front { s with reader := s.reader.goto pc } :=
  h.reader rfl h.length (h.follows.goto pc) (hpos.of_same ⟨rfl, rfl, rfl⟩)

/-- The reader gives up the channel, or waits. -/
theorem Tracks.retry (hchannel : ChannelFrom s.reader s.log s.log.length)
    (rest : Option (List RunEvent)) :
    Tracks c g status front { s with reader := s.reader.retry rest } := by
  cases rest with
  | some => exact h.goto .wait hchannel
  | none =>
    exact h.reader rfl h.length (h.follows.of_same ⟨rfl, rfl, rfl, rfl⟩ rfl h.follows.generation)
      fun ch hch => by simp [StreamReader.retry] at hch

theorem Tracks.refreshed (hr : s.readRun env = .ok r) :
    Follows (s.reader.refreshed r) s.log front g status :=
  h.follows.of_same ⟨rfl, rfl, rfl, rfl⟩ rfl
    (max_le h.follows.generation (h.row.read hr).2.le)

theorem Tracks.refresh (pc : StreamPc)
    (hr : s.readRun env = .ok r) (hpos : Position c g status s.reader s.log front pc) :
    Tracks c g status front { s with reader := (s.reader.refreshed r).goto pc } :=
  h.reader rfl h.length ((h.refreshed hr).goto pc) (hpos.of_same ⟨rfl, rfl, rfl⟩)

end

/-- The reader consumes the event at position `k`. -/
theorem Tracks.consume (fails : Bool) (rest : Option (List RunEvent)) (h : Tracks c g status front s)
    (hfollows : Follows rd s.log front g status) (hrun : rd.runId = s.reader.runId)
    (he : s.log[k]? = some e) (hk : k ≤ front) (honward : ∀ front', front ≤ front' → k < front' →
      Position c g status rd s.log front' (resumePc rest))
    (hcompleting : k = front → RestFrom c g rd s.log front rest) :
    ∃ front', Tracks c g status front' { s with reader := rd.consume fails e rest } := by
  have hends := sameEnds_consume rd fails e rest
  have hrun' : (rd.consume fails e rest).runId = s.reader.runId := hends.runId.trans hrun
  cases hfollows.consume (h.log.of_runId hrun) h.length h.started he hk fails rest with
  | onward front' hfront hk' hlength hfollows' hpc =>
    exact ⟨front', h.reader hrun' hlength hfollows'
      (hpc ▸ (honward front' hfront hk').of_same hends)⟩
  | stopped hfollows' hpc => exact ⟨front, h.reader hrun' h.length hfollows' (hpc ▸ trivial)⟩
  | completing q hk' hfollows' hpc hq =>
    subst hk'
    refine ⟨k, h.reader hrun' h.length hfollows' ?_⟩
    rw [hpc]
    exact ⟨he, hq, trivial, by simpa using hends.carries.restFrom (hcompleting rfl)⟩

/-! ## The end of the stream -/

theorem Follows.events (h : Follows rd s.log front g status) :
    rd.emitted = rd.events.map .event ∧ rd.events.Sublist (s.log.take front) ∧
      ∀ e ∈ rd.events, e.isTerminal = false := by
  obtain ⟨events, hemitted, hsub, hterm⟩ := h.caught.sent
  have hevents : rd.events = events := by simp [StreamReader.events, hemitted, List.filterMap_map]
  exact ⟨hevents ▸ hemitted, hevents ▸ hsub, hevents ▸ hterm⟩

section

variable (h : Tracks c g status front s) (hgen : e.generation = g)
  (hsince : ∀ since, s.reader.since = some since → since < e.seq)
include h hgen hsince

/-- An event of the run's generation before the front was sent, unless the client had it or it is
terminal with another status. -/
theorem Tracks.sent_of_lt {i : ℕ} (he : s.log[i]? = some e) (hi : i < front)
    (hterm : e.isTerminal → e.outcome.map Prod.fst = some status) : e ∈ s.reader.events := by
  have hmem : e ∈ s.log.take front :=
    List.mem_iff_getElem?.2 ⟨i, by rw [List.getElem?_take, if_pos hi, he]⟩
  rcases h.follows.caught.handled e hmem with hsent | hold | ⟨since, hs, hle⟩ | ⟨ht, hnone | hne⟩
  · rw [h.follows.events.1] at hsent
    obtain ⟨_, he', heq⟩ := List.mem_map.1 hsent
    exact Emission.event.inj heq ▸ he'
  · omega
  · have := hsince since hs
    omega
  · simpa [hnone] using hterm ht
  · exact absurd (hterm ht) hne.2

theorem Tracks.sent_of_covers (hcov : Covers c g s.log front) {n : ℕ} (hn : c = some n)
    (he : e ∈ s.log.take n) : e ∈ s.reader.events := by
  obtain ⟨i, hi⟩ := List.mem_iff_getElem?.1 he
  rw [List.getElem?_take] at hi
  split_ifs at hi with hlt
  exact h.sent_of_lt hgen hsince hi (hcov n hn i e hlt hi hgen) ((h.told n hn).2 e he hgen)

end

/-- The terminal event is the last of its generation. -/
theorem LogOk.le_terminal {i : ℕ} (h : LogOk rd log)
    (he : log[front]? = some e) (hterm : e.isTerminal) (ha : log[i]? = some a)
    (hgen : a.generation = e.generation) : i ≤ front := by
  by_contra hlt
  exact pairwise_getElem? h.last he ha (not_le.1 hlt) hterm hgen.symm

theorem LogOk.eq_terminal (h : LogOk rd log)
    (he : log[front]? = some e) (hterm : e.isTerminal) (ha : a ∈ log)
    (hgen : a.generation = e.generation) (haterm : a.isTerminal) : a = e := by
  obtain ⟨i, hi⟩ := List.mem_iff_getElem?.1 ha
  have hle := h.le_terminal he hterm hi hgen
  have hge := h.le_terminal hi haterm he hgen.symm
  obtain rfl : i = front := hle.antisymm hge
  exact Option.mem_unique hi he

/-- The reader still follows the log, or has sent the end. -/
inductive Progress (c : Option ℕ) (g : ℤ) (status : RunStatus) (s : Stream) : Prop
  | tracks (front : ℕ) (h : Tracks c g status front s)
  | finished (h : Finished c g status s)

/-- The end event is made up once everything was covered. -/
theorem Tracks.durableEnd (h : Tracks c g status front s) (hcov : Covers c g s.log front)
    (hterm : status.terminal) (hr : s.readRun env = .ok r) (fails : Bool) :
    Progress c g status { s with reader := (s.reader.refreshed r).durableEnd fails r } := by
  have hsub := h.follows.events.2.1
  obtain ⟨n, hn⟩ := Option.isSome_iff_exists.1 (h.committed.trans hterm)
  unfold StreamReader.durableEnd StreamReader.finish
  split_ifs
  · exact .tracks front (h.refresh .returned hr trivial)
  · have hevents : ({ s.reader.refreshed r with
        emitted := s.reader.emitted ++
          [.durableEnd (metadataGeneration r.metadataMap completionGenerationKey) r.status]
        pc := .returned } : StreamReader).events = s.reader.events := by simp [StreamReader.events]
    refine .finished ⟨rfl, h.row, h.log.of_runId rfl, h.started, hterm, ?_, n, hn, (h.told n hn).1,
      fun e he hgen hsince => ?_⟩
    · exact hevents ▸ hsub.trans (List.take_sublist _ _)
    · exact hevents ▸ h.sent_of_covers hgen hsince hcov hn he

/-- The terminal event that the run was completed with is sent. -/
theorem Tracks.finish (h : Tracks c g status front s) (he : s.log[front]? = some e)
    (hterm : e.isTerminal) (hgen : e.generation = g) (hclosed : status.terminal)
    (fails : Bool) : Progress c g status { s with reader := s.reader.finish fails (.event e) } := by
  have hsub := h.follows.events.2.1
  obtain ⟨n, hn⟩ := Option.isSome_iff_exists.1 (h.committed.trans hclosed)
  unfold StreamReader.finish
  split_ifs
  · exact .tracks front (h.goto .returned trivial)
  · have hevents : ({ s.reader with emitted := s.reader.emitted ++ [.event e], pc := .returned } :
        StreamReader).events = s.reader.events ++ [e] := by simp [StreamReader.events]
    refine .finished ⟨rfl, h.row, h.log.of_runId rfl, h.started, hclosed, ?_, n, hn, (h.told n hn).1,
      fun a ha hagen hsince => ?_⟩
    · have hfront : (s.reader.events ++ [e]).Sublist (s.log.take (front + 1)) :=
        take_front he ▸ hsub.append_right [e]
      exact hevents ▸ hfront.trans (List.take_sublist _ _)
    · -- an event of the generation is this one or stands before it
      have hmem : a ∈ s.log := List.mem_of_mem_take ha
      obtain ⟨i, hi⟩ := List.mem_iff_getElem?.1 hmem
      have hle := h.log.le_terminal he hterm hi (hagen.trans hgen.symm)
      refine hevents ▸ List.mem_append.2 ?_
      rcases hle.lt_or_eq with hlt | rfl
      · exact .inl (h.sent_of_lt hagen hsince hi hlt ((h.told n hn).2 a ha hagen))
      · exact .inr (List.mem_singleton.2 (Option.mem_unique hi he))

/-! ## The row of the run -/

theorem Tracks.row_changes {db : Db} (h : Tracks c g status front s)
    (hrow : RowIs s.reader.runId g' status' db) (hg : g ≤ g')
    (hsame : status.terminal → g' = g ∧ status' = status)
    (hcov : CoversAt c' g' s.log front s.reader.pc) (hcommitted : c'.isSome = status'.terminal)
    (htold : ∀ n, c' = some n → n ≤ s.log.length ∧ ∀ e ∈ s.log.take n, e.generation = g' →
      e.isTerminal → e.outcome.map Prod.fst = some status') :
    Tracks c' g' status' front { s with db := db } where
  row := hrow
  log := h.log
  started e he := (h.started e he).trans hg
  length := h.length
  follows := h.follows.row hg fun hterm => (hsame hterm).2
  position := h.position.row hg hsame hcov
  committed := hcommitted
  told := htold

/-- Where the log is when the completion is committed. -/
def commitPoint (c : Option ℕ) (status status' : RunStatus) (log : List RunEvent) : Option ℕ :=
  if !status.terminal && status'.terminal then some log.length else c

theorem commitPoint_same (log : List RunEvent) : commitPoint c status status log = c := by
  unfold commitPoint
  cases status.terminal <;> simp

theorem commitPoint_commit (log : List RunEvent) (h : status.terminal = false)
    (h' : status'.terminal) : commitPoint c status status' log = some log.length := by
  simp [commitPoint, h, h']

/-- What a step leads to. -/
def Leads (c : Option ℕ) (g : ℤ) (status : RunStatus) (s s' : Stream) : Prop :=
  ∃ g' status', (status.terminal = true → g' = g ∧ status' = status) ∧
    Progress (commitPoint c status status' s.log) g' status' s'

theorem Leads.of_same (h : Progress c g status s') : Leads c g status s s' :=
  ⟨g, status, fun _ => ⟨rfl, rfl⟩, by rwa [commitPoint_same]⟩

theorem Tracks.leads (h : Tracks c g status front s') : Leads c g status s s' :=
  .of_same (.tracks front h)

theorem Tracks.beginRunAttempt (h : Tracks c g status front s) (ctx : Ctx) {generation : ℤ}
    (hsmall : |generation| ≤ 2 ^ 53) (env : CallEnv) :
    Leads c g status s (s.step d (.beginRunAttempt ctx generation env)) := by
  rcases h.row.of_beginRunAttempt ctx hsmall env.now env.driver with hrow | ⟨hopen, hle, hrow⟩
  · exact .of_same (.tracks front ⟨hrow, h.log, h.started, h.length, h.follows, h.position,
      h.committed, h.told⟩)
  · have hc : c = none := by simpa [hopen] using h.committed
    subst hc
    refine ⟨generation, .running, by simp [hopen], .tracks front ?_⟩
    have hpoint : commitPoint none status .running s.log = none := by
      simp [commitPoint, RunStatus.terminal]
    rw [hpoint]
    exact h.row_changes hrow hle (by simp [hopen]) (coversAt_none _) rfl (by simp)

theorem Tracks.completeRun (h : Tracks c g status front s) {ctx : Ctx} {completion : RunCompletion}
    {env : CallEnv} (hfits : s.fits d (.completeRun ctx completion env)) :
    Leads c g status s (s.step d (.completeRun ctx completion env)) := by
  have hrow : RowIs ({ completion with runId := s.reader.runId } : RunCompletion).runId g status
    s.db := h.row
  rcases hrow.of_completeRun d ctx env.now env.driver with hsame | ⟨hopen, hterm, -, hrow'⟩
  · refine .of_same (.tracks front ⟨?_, h.log, h.started, h.length, h.follows, h.position,
      h.committed, h.told⟩)
    exact (congrArg (RowIs s.reader.runId g status) hsame).mpr h.row
  · have hall : ∀ e ∈ s.log, e.generation = g → s.reader.accounts e ∧
        (e.isTerminal → e.outcome.map Prod.fst = some completion.status) := by
      have hcommits : (s.step d (.completeRun ctx completion env)).terminal :=
        (RowIs.attempt (s := s.step d (.completeRun ctx completion env)) hrow').2.trans hterm
      simp only [Stream.fits, h.row.attempt.1, h.row.attempt.2, hopen, hcommits, Bool.not_true,
        Bool.or_self, Bool.false_or, List.all_eq_true] at hfits
      intro e he hgen
      simpa [hgen, Classical.or_iff_not_imp_left] using hfits e he
    refine ⟨g, completion.status, by simp [hopen], .tracks front ?_⟩
    rw [commitPoint_commit _ hopen hterm]
    refine h.row_changes hrow' le_rfl (by simp [hopen])
      (coversAt_of_accounts h.log h.follows.marks h.position fun e he hgen => (hall e he hgen).1)
      hterm.symm ?_
    rintro n ⟨⟩
    exact ⟨le_rfl, fun e he hgen => (hall e (List.mem_of_mem_take he) hgen).2⟩

/-- A step of the completion with the terminal event at the front. -/
theorem Tracks.completing {q : CompletionRequest} {phase : CompletionPhase}
    (h : Tracks c g status front s) (hpc : s.reader.pc = .completing e q phase rest) :
    Leads c g status s (s.proceed d env) := by
  have hpos := h.position
  rw [hpc] at hpos
  obtain ⟨he, hq, hphase, _⟩ := hpos
  have hrow : RowIs q.runId g status s.db := hq.runId ▸ h.row
  obtain ⟨status', hrow', hchange, hanswer⟩ :=
    CompletionPhase.answers_next d env.toCallEnv s.log hq.plain hq.status hrow hphase
  have hsame : status.terminal → g = g ∧ status' = status := by
    intro hterm
    rcases hchange with heq | ⟨hopen, -⟩
    · exact ⟨rfl, heq⟩
    · simp [hterm] at hopen
  -- the step commits nothing, or what the event says of the last event of its generation
  have hmoved : Tracks (commitPoint c status status' s.log) g status' front
      { s with db := (q.next d env.toCallEnv s.log s.db phase).2 } := by
    rcases hchange with rfl | ⟨hopen, rfl, hgen⟩
    · rw [commitPoint_same]
      exact ⟨hq.runId ▸ hrow', h.log, h.started, h.length, h.follows, h.position, h.committed,
        h.told⟩
    · have hegen : e.generation = g := hq.generation ▸ hgen
      have hcov : ∀ n, front < n → Covers (some s.log.length) g s.log n := by
        rintro n hlt m ⟨⟩ i a - ha hagen
        exact (h.log.le_terminal he hq.terminal ha (hagen.trans hegen.symm)).trans_lt hlt
      rw [commitPoint_commit _ hopen hq.status]
      refine h.row_changes (hq.runId ▸ hrow') le_rfl (by simp [hopen]) ?_ hq.status.symm ?_
      · rw [hpc]
        cases rest with
        | none => trivial
        | some => exact fun n _ hlt => hcov n hlt
      · rintro n ⟨⟩
        refine ⟨le_rfl, fun a ha hagen hterm => ?_⟩
        rw [h.log.eq_terminal he hq.terminal (List.mem_of_mem_take ha) (hagen.trans hegen.symm)
          hterm]
        exact hq.outcome
  have hrest' : RestFrom (commitPoint c status status' s.log) g s.reader s.log front rest := by
    have hpos' := hmoved.position
    rw [show ({ s with db := (q.next d env.toCallEnv s.log s.db phase).2 } : Stream).reader.pc =
      .completing e q phase rest from hpc] at hpos'
    exact hpos'.2.2.2
  refine ⟨g, status', hsame, ?_⟩
  unfold Stream.proceed
  rw [hpc]
  dsimp only
  generalize (q.next d env.toCallEnv s.log s.db phase).1 = phase' at hanswer
  cases phase' with
  | returned result error =>
    cases error with
    | some => exact .tracks front (hmoved.retry (hrest'.channel he) rest)
    | none =>
      dsimp only
      rcases hanswer with ⟨hacc, hgen, rfl⟩ | ⟨hacc, rfl, hwhy⟩
      · rw [if_pos hacc]
        exact hmoved.finish he hq.terminal (hq.generation ▸ hgen) hq.status env.emitFails
      · rw [if_neg (by simp [hacc])]
        refine .tracks front (hmoved.goto (.refused e rest) ⟨he, ?_, hrest'⟩)
        rcases hwhy with hne | ⟨hclosed, hne⟩
        · have hle := h.started e (List.mem_of_getElem? he)
          exact .inl (lt_of_le_of_ne hle (hq.generation ▸ hne))
        · refine .inr (.inr ⟨hq.terminal, .inr ⟨hclosed, ?_⟩⟩)
          rw [hq.outcome]
          exact fun heq => hne (Option.some.inj heq).symm
  | read | replay | commit | reread | finalize =>
    exact .tracks front (hmoved.goto (.completing e q _ rest) ⟨he, hq, hanswer, hrest'⟩)

/-! ## Steps of the reader -/

theorem replaySince_zero (h : LogOk rd log) : replaySince 0 log = log := by
  unfold replaySince
  exact List.filter_eq_self.2 fun e he => by simpa using h.positive e he

theorem cons_eq_segment {log segment : List RunEvent} {n : ℕ}
    (h : e :: segment = (log.take n).drop k) :
    log[k]? = some e ∧ segment = (log.take n).drop (k + 1) ∧ k < n := by
  have hhead : ((log.take n).drop k)[0]? = some e := by rw [← h]; rfl
  rw [List.getElem?_drop, List.getElem?_take] at hhead
  split_ifs at hhead with hlt
  refine ⟨hhead, ?_, hlt⟩
  rw [← List.drop_drop, ← h]
  rfl

theorem Tracks.past {events : List RunEvent} (d : Dialect) (env : StreamEnv)
    (h : Tracks c g status front s) (hpc : s.reader.pc = .past events) :
    ∃ front', Tracks c g status front' (s.proceed d env) := by
  have hpos := h.position
  rw [hpc] at hpos
  obtain ⟨n, k, hevents, hk, hn, hchannel, hcov⟩ := hpos
  unfold Stream.proceed
  rw [hpc]
  cases events with
  | nil =>
    -- the replay is used up, so the front is beyond it
    have hle : n ≤ front := by
      have := congrArg List.length hevents
      simp only [List.length_nil, List.length_drop, List.length_take] at this
      omega
    rw [max_eq_right hle] at hcov
    exact ⟨front, h.goto .refreshReplayed ⟨hchannel.mono hle, hcov⟩⟩
  | cons e events =>
    obtain ⟨he, hrest, hlt⟩ := cons_eq_segment hevents
    refine h.consume env.emitFails (some events) h.follows rfl he hk (fun front' hfront hk' => ?_)
      fun hkf => ?_
    · exact ⟨n, k + 1, hrest, hk', hn, hchannel, hcov.mono (by omega)⟩
    · subst hkf
      exact ⟨n, hrest, hlt, hn, hchannel, hcov.mono (by omega)⟩

theorem Tracks.receive (env : StreamEnv) (h : Tracks c g status front s)
    (hchannel : ChannelFrom s.reader s.log front) :
    ∃ front', Tracks c g status front' { s with reader := Stream.receive s.reader env } := by
  unfold Stream.receive
  cases hch : s.reader.channel with
  | none => exact ⟨front, h.goto .replay (hchannel.mono h.length)⟩
  | some ch =>
    dsimp only
    by_cases htick : env.tick
    · rw [if_pos htick]
      exact ⟨front, h.goto .refreshTick hchannel⟩
    rw [if_neg htick]
    obtain ⟨i, n, hqueue, hi, -, hn, hopen⟩ := hchannel ch hch
    cases hcons : ch.queue with
    | nil =>
      dsimp only
      by_cases hclosed : ch.closed
      · rw [if_pos hclosed]
        exact ⟨front, h.retry (hchannel.mono h.length) none⟩
      · rw [if_neg hclosed]
        exact ⟨front, h⟩
    | cons e queue =>
      obtain ⟨he, hrest, _⟩ := cons_eq_segment (hcons ▸ hqueue)
      have hfollows : Follows { s.reader with channel := some { ch with queue := queue } } s.log front
          g status := h.follows.of_same ⟨rfl, rfl, rfl, rfl⟩ rfl h.follows.generation
      have hleft : ∀ bound, i < bound → ChannelFrom
          { s.reader with channel := some { ch with queue := queue } } s.log bound := by
        rintro bound hbound ch' ⟨⟩
        exact ⟨i + 1, n, hrest, hbound, by omega, hn, hopen⟩
      refine h.consume env.emitFails none hfollows rfl he hi ?_ ?_
      · intro front' _ hk
        exact ChannelFrom.of_channel (hleft front' hk) rfl
      · intro hif
        exact hleft (front + 1) (by omega)

theorem Tracks.proceed (h : Tracks c g status front s) (hfits : s.fits d (.proceed env)) :
    Leads c g status s (s.proceed d env) := by
  have hpos := h.position
  cases hpc : s.reader.pc
  case completing e q phase rest => exact h.completing hpc
  case past events =>
    obtain ⟨front', h'⟩ := h.past d env hpc
    exact h'.leads
  all_goals
    rw [hpc] at hpos
    unfold Stream.proceed
    rw [hpc]
    dsimp only
  case subscribe =>
    refine .of_same (.tracks front (h.reader rfl h.length
      (h.follows.of_same ⟨rfl, rfl, rfl, rfl⟩ rfl h.follows.generation) fun ch hch => ?_))
    cases hattach : env.attach with
    | false => simp [hattach] at hch
    | true =>
      simp only [hattach, if_true, Option.some.injEq] at hch
      subst hch
      exact ⟨s.log.length, s.log.length, by simp, le_rfl, le_rfl, le_rfl, fun _ => rfl⟩
  case start =>
    split
    · exact (h.goto .returned trivial).leads
    · rename_i r hr
      refine .of_same (.tracks front (h.reader rfl h.length
        (h.follows.of_same ⟨rfl, rfl, rfl, rfl⟩ rfl (h.row.read hr).2.le) ?_))
      exact ChannelFrom.of_channel hpos rfl
  case replay =>
    have hnone : env.replayError = none := by simpa [Stream.fits, hpc] using hfits
    rw [hnone, replaySince_zero h.log]
    refine (h.goto (.past s.log) ⟨s.log.length, 0, by simp, by omega, le_rfl, hpos, ?_⟩).leads
    intro n hn i e hi he hgen
    have hlt := (List.getElem?_eq_some_iff.1 he).1
    omega
  case refused e rest =>
    obtain ⟨he, hex, hrest⟩ := hpos
    split
    · exact (h.retry (hrest.channel he) rest).leads
    · rename_i r hr
      have hends : SameEnds s.reader (((s.reader.refreshed r).mark e).resume rest) :=
        (show SameEnds s.reader (s.reader.refreshed r) from ⟨rfl, rfl, rfl⟩).trans
          ((sameEnds_mark _ e).trans (sameEnds_resume _ rest))
      refine .of_same (.tracks (front + 1) (h.reader hends.runId
        (List.getElem?_eq_some_iff.1 he).1
        (((h.refreshed hr).skip (h.log.of_runId rfl) he hex).resume rest) ?_))
      rw [pc_resume]
      exact hrest.position.of_same hends
  case refreshReplayed =>
    obtain ⟨hchannel, hcov⟩ := hpos
    split
    · exact (h.goto .wait (hchannel.mono h.length)).leads
    · rename_i r hr
      have hstatus := (h.row.read hr).1
      split_ifs with hterm
      · exact .of_same (h.durableEnd hcov (hstatus ▸ hterm) hr env.emitFails)
      · exact (h.refresh .live hr hchannel).leads
      · exact (h.refresh .wait hr (hchannel.mono h.length)).leads
  case refreshFailed =>
    exact hpos.elim
  case wait =>
    exact (h.goto .replay hpos).leads
  case live =>
    obtain ⟨front', h'⟩ := h.receive env hpos
    exact h'.leads
  case refreshTick =>
    split
    · exact (h.goto .replay (hpos.mono h.length)).leads
    · rename_i r hr
      split_ifs
      · exact (h.refresh .replay hr (hpos.mono h.length)).leads
      · exact (h.refresh .live hr hpos).leads
  case returned =>
    exact h.leads

/-! ## Steps -/

/-- After the end only the log grows. -/
theorem Finished.step {ev : StreamEvent} (h : Finished c g status s)
    (hfits : s.fits d ev) : Finished c g status (s.step d ev) := by
  cases ev with
  | publish => exact h.publish hfits
  | close | abandon =>
    exact ⟨by first | exact h.pc | rfl, h.row, h.log.of_runId rfl, h.started, h.terminal, h.sent,
      h.complete⟩
  | beginRunAttempt ctx generation env =>
    have hsmall : |generation| ≤ 2 ^ 53 := by simpa [Stream.fits] using hfits
    refine ⟨h.pc, ?_, h.log, h.started, h.terminal, h.sent, h.complete⟩
    rcases h.row.of_beginRunAttempt ctx hsmall env.now env.driver with hrow | ⟨hopen, -⟩
    · exact hrow
    · simp [h.terminal] at hopen
  | completeRun ctx completion env =>
    refine ⟨h.pc, ?_, h.log, h.started, h.terminal, h.sent, h.complete⟩
    have hrow : RowIs ({ completion with runId := s.reader.runId } : RunCompletion).runId g status
      s.db := h.row
    rcases hrow.of_completeRun d ctx env.now env.driver with hsame | ⟨hopen, -⟩
    · exact (congrArg (RowIs s.reader.runId g status) hsame).mpr h.row
    · simp [h.terminal] at hopen
  | proceed env =>
    have hstep : s.step d (.proceed env) = s := by
      change s.proceed d env = s
      unfold Stream.proceed
      rw [h.pc]
    rwa [hstep]

theorem Progress.step {ev : StreamEvent} (h : Progress c g status s) (hfits : s.fits d ev) :
    Leads c g status s (s.step d ev) := by
  cases h with
  | finished h => exact .of_same (.finished (h.step hfits))
  | tracks front h =>
    cases ev with
    | publish => exact (h.publish hfits).leads
    | close => exact (h.close (d := d)).leads
    | abandon => exact (h.abandon (d := d)).leads
    | beginRunAttempt ctx generation env =>
      exact h.beginRunAttempt ctx (by simpa [Stream.fits] using hfits) env
    | completeRun => exact h.completeRun hfits
    | proceed => exact h.proceed hfits

theorem Progress.row (h : Progress c g status s) :
    RowIs s.reader.runId g status s.db ∧ c.isSome = status.terminal := by
  cases h with
  | tracks front h => exact ⟨h.row, h.committed⟩
  | finished h =>
    obtain ⟨n, hn, -⟩ := h.complete
    exact ⟨h.row, by rw [hn, h.terminal]; rfl⟩

/-! ## Runs -/

namespace Stream

/-- A call of `replayRunEvents` begins, before anything was published. -/
def opened (db : Db) (runId : String) (ctx : Ctx) (since : Option ℤ) : Stream :=
  ⟨db, [], false, { runId := runId, ctx := ctx, since := since }⟩

/-- The generation the run was completed with. -/
def completedGeneration (s : Stream) : ℤ :=
  match s.db.runs.get? s.reader.runId with
  | some r => metadataGeneration r.metadataMap completionGenerationKey
  | none => 0

/-- A terminal event was sent. -/
def ended (s : Stream) : Bool := s.reader.emitted.any Emission.isTerminal

end Stream

theorem RowIs.completedGeneration (h : RowIs s.reader.runId g status s.db)
    (hterm : status.terminal) : s.completedGeneration = g := by
  obtain ⟨r, m, hr, hf, rfl, hclosed⟩ := h
  unfold Stream.completedGeneration
  rw [hr]
  simp [Run.metadataMap, hf.decoded, metadataGeneration, hclosed hterm,
    int64OfFloat_intCast hf.small]

theorem log_proceed (s : Stream) (env : StreamEnv) : (s.proceed d env).log = s.log := by
  unfold Stream.proceed
  dsimp only
  repeat' split
  all_goals rfl

theorem since_retry (rd : StreamReader) (rest : Option (List RunEvent)) :
    (rd.retry rest).since = rd.since := by
  cases rest <;> rfl

theorem since_finish (rd : StreamReader) (fails : Bool) (x : Emission) :
    (rd.finish fails x).since = rd.since := by
  unfold StreamReader.finish
  split_ifs <;> rfl

theorem since_receive (rd : StreamReader) (env : StreamEnv) :
    (Stream.receive rd env).since = rd.since := by
  unfold Stream.receive
  repeat' split
  all_goals first | rfl | exact (sameEnds_consume _ _ _ _).since

theorem since_step (ev : StreamEvent) (s : Stream) :
    (s.step d ev).reader.since = s.reader.since := by
  cases ev with
  | proceed env =>
    change (s.proceed d env).reader.since = s.reader.since
    unfold Stream.proceed
    dsimp only
    repeat' split
    all_goals first
      | rfl
      | exact since_receive _ _
      | exact since_retry _ _
      | exact since_finish _ _ _
      | exact (sameEnds_consume _ _ _ _).since
      | exact (sameEnds_resume _ _).since.trans (sameEnds_mark _ _).since
  | publish | close | beginRunAttempt | completeRun | abandon => rfl

theorem log_step (ev : StreamEvent) (s : Stream) : s.log <+: (s.step d ev).log := by
  cases ev with
  | publish => exact List.prefix_append _ _
  | proceed env => exact (log_proceed s env) ▸ List.prefix_rfl
  | close | beginRunAttempt | completeRun | abandon => exact List.prefix_rfl

theorem log_run (evs : List StreamEvent) (s : Stream) :
    s.log <+: (Trace.run (Stream.step d) evs s).log := by
  have hstep : ∀ ev (s' : Stream), s.log <+: s'.log → s.log <+: (s'.step d ev).log :=
    fun ev s' h => h.trans (log_step ev s')
  exact Trace.invariant_of_step hstep evs List.prefix_rfl

theorem since_run (evs : List StreamEvent) (s : Stream) :
    (Trace.run (Stream.step d) evs s).reader.since = s.reader.since := by
  have hstep : ∀ ev (s' : Stream), s'.reader.since = s.reader.since →
      (s'.step d ev).reader.since = s.reader.since := fun ev s' h => (since_step ev s').trans h
  exact Trace.invariant_of_step hstep evs rfl

section

variable {evs : List StreamEvent} (h : Progress c g status s)
  (hfits : Trace.Every (Stream.step d) (fun ev s => s.fits d ev = true) evs s)
include h hfits

/-- Once the completion is committed, the row and the place of the commit stay. -/
theorem Progress.run (hterm : status.terminal) :
    Progress c g status (Trace.run (Stream.step d) evs s) := by
  have hstep : ∀ ev (s : Stream), s.fits d ev → Progress c g status s →
      Progress c g status (s.step d ev) := by
    intro ev s hfit hs
    obtain ⟨_, _, hsame, hs'⟩ := hs.step hfit
    obtain ⟨rfl, rfl⟩ := hsame hterm
    rwa [commitPoint_same] at hs'
  exact Trace.invariant hstep hfits h

theorem Progress.exists_run :
    ∃ c g status, Progress c g status (Trace.run (Stream.step d) evs s) := by
  have hstep : ∀ ev (s : Stream), s.fits d ev → (∃ c g status, Progress c g status s) →
      ∃ c g status, Progress c g status (s.step d ev) := by
    rintro ev s hfit ⟨c, g, status, hs⟩
    obtain ⟨g', status', -, hs'⟩ := hs.step hfit
    exact ⟨_, g', status', hs'⟩
  exact Trace.invariant hstep hfits ⟨c, g, status, h⟩

end

theorem progress_opened {db : Db} {runId : String} {r : Run} (hr : db.runs.get? runId = some r)
    (hnew : r.Unreserved) (hdecodes : (decodeMetadata r.metadata).isSome)
    (hactive : r.status.terminal = false) (ctx : Ctx) (since : Option ℤ) :
    Progress none 0 r.status (Stream.opened db runId ctx since) := by
  refine .tracks 0 ⟨rowIs_new hr hnew hdecodes hactive, ⟨by simp [Stream.opened], .nil, .nil, .nil⟩,
    by simp [Stream.opened], le_rfl, ⟨⟨?_, ?_, ?_⟩, ⟨⟨[], rfl, by simp, by simp⟩, by simp⟩, le_rfl⟩,
    rfl, hactive.symm, by simp⟩
  all_goals simp [Stream.opened]

/-- A stream that has sent a terminal event is finished. -/
theorem Progress.finished_of_ended (h : Progress c g status s) (hended : s.ended) :
    Finished c g status s := by
  cases h with
  | finished h => exact h
  | tracks front h =>
    obtain ⟨hemitted, -, hterm⟩ := h.follows.events
    obtain ⟨x, hx, hxterm⟩ := List.any_eq_true.1 hended
    rw [hemitted] at hx
    obtain ⟨e, he, rfl⟩ := List.mem_map.1 hx
    simp [Emission.isTerminal, hterm e he] at hxterm

/-- In every interleaving of publishes, new attempts, completions and the steps of
`replayRunEvents` whose steps fit, with the completion committed by the step `ev` : if the call has
sent a terminal event, it has sent every event of the completed generation beyond the cursor that
was published before, no event twice, and the events of each generation in the order of their
sequence numbers. -/
theorem stream_complete (d : Dialect) (db : Db) (runId : String) (r : Run)
    (hr : db.runs.get? runId = some r) (hnew : r.Unreserved)
    (hdecodes : (decodeMetadata r.metadata).isSome) (hactive : r.status.terminal = false)
    (ctx : Ctx) (since : Option ℤ) (before : List StreamEvent) (ev : StreamEvent)
    (after : List StreamEvent)
    (hfits : Trace.Every (Stream.step d) (fun ev s => s.fits d ev = true) (before ++ ev :: after)
      (Stream.opened db runId ctx since))
    (hopen : (Trace.run (Stream.step d) before (Stream.opened db runId ctx since)).terminal = false)
    (hcommit : (Trace.run (Stream.step d) (before ++ [ev])
      (Stream.opened db runId ctx since)).terminal = true)
    (hended : (Trace.run (Stream.step d) (before ++ ev :: after)
      (Stream.opened db runId ctx since)).ended = true) :
    let final := Trace.run (Stream.step d) (before ++ ev :: after) (Stream.opened db runId ctx since)
    final.reader.events.Nodup ∧
      (∀ g, (final.reader.events.filter fun e => e.generation = g).Pairwise fun a b =>
        a.seq < b.seq) ∧
      ∀ e ∈ (Trace.run (Stream.step d) before (Stream.opened db runId ctx since)).log,
        e.generation = final.completedGeneration →
        (∀ v, since = some v → v < e.seq) → e ∈ final.reader.events := by
  intro final
  obtain ⟨hbefore, hev, hafter⟩ := Trace.every_append.1 hfits
  obtain ⟨c, g, status, hs⟩ :=
    (progress_opened hr hnew hdecodes hactive ctx since).exists_run hbefore
  -- the run was open, so `ev` committed its completion
  obtain ⟨hrow, _⟩ := hs.row
  have hwas : status.terminal = false := hrow.attempt.2.symm.trans hopen
  obtain ⟨g', status', -, hs'⟩ := hs.step hev
  have hterm : status'.terminal := by
    rw [Trace.run_append] at hcommit
    exact hs'.row.1.attempt.2.symm.trans hcommit
  rw [commitPoint_commit _ hwas hterm] at hs'
  -- from then on nothing about the run changes
  have hrun : final = Trace.run (Stream.step d) (ev :: after) (Trace.run (Stream.step d) before
      (Stream.opened db runId ctx since)) := Trace.run_append before (ev :: after) _
  have hfinal : Finished (some (Trace.run (Stream.step d) before
      (Stream.opened db runId ctx since)).log.length) g' status' final :=
    Progress.finished_of_ended (hrun ▸ hs'.run hafter hterm) hended
  refine ⟨hfinal.log.nodup.sublist hfinal.sent, fun g => ?_, fun e he hgen hsince => ?_⟩
  · refine List.pairwise_filter.2 ((hfinal.log.increasing.sublist hfinal.sent).imp ?_)
    intro a b hlt ha hb
    simp only [decide_eq_true_eq] at ha hb
    exact hlt (ha.trans hb.symm)
  · obtain ⟨n, hn, -, hall⟩ := hfinal.complete
    cases hn
    have hgrown : (Trace.run (Stream.step d) before (Stream.opened db runId ctx since)).log <+:
        final.log := hrun ▸ log_run (ev :: after) _
    have hmem : e ∈ final.log.take (Trace.run (Stream.step d) before
        (Stream.opened db runId ctx since)).log.length := by
      rwa [List.prefix_iff_eq_take.1 hgrown] at he
    refine hall e hmem (hgen.trans (hfinal.row.completedGeneration hterm)) fun v hv => hsince v ?_
    exact (since_run (before ++ ev :: after) _).symm.trans hv

/-- The first event of the first attempt. -/
def firstEvent : RunEvent :=
  { generation := 1, eventId := "e", seq := 1, method := "custom", data := .empty }

/-- Another replica completes the first attempt. -/
def completedElsewhere : StreamEvent :=
  .completeRun {} { runId := "r", generation := 1, status := .success } {}

/-- The stream of a fresh run. -/
def freshStream : Stream :=
  .opened (Db.single (Thread.fresh "t") (Run.fresh "r" "t")) "r" {} none

/-- The event is published and sent, then the run is completed and the end is made up. -/
theorem stream_complete_ended :
    let before := [.beginRunAttempt {} 1 {}, .publish firstEvent, .proceed {}, .proceed {},
      .proceed {}, .proceed {}]
    let final := Trace.run (Stream.step {})
      (before ++ completedElsewhere :: [.proceed {}, .proceed {}]) freshStream
    final.reader.emitted.length = 2 ∧ final.reader.events.Nodup :=
  ⟨by decide +kernel, (stream_complete {} (Db.single (Thread.fresh "t") (Run.fresh "r" "t")) "r"
    (Run.fresh "r" "t") rfl (unreserved_fresh _ _) rfl rfl {} none _ completedElsewhere
    [.proceed {}, .proceed {}] (by decide +kernel) (by decide +kernel) (by decide +kernel)
    (by decide +kernel)).1⟩

/-- The log is replayed, then an event is published and the run completed : the next look at the run
ends the stream without the event. -/
theorem stream_misses_event :
    let before := [.beginRunAttempt {} 1 {}, .proceed {}, .proceed {}, .proceed {},
      .publish firstEvent]
    let final := Trace.run (Stream.step {})
      (before ++ completedElsewhere :: [.proceed {}, .proceed {}]) freshStream
    (Trace.run (Stream.step {}) before freshStream).terminal = false ∧
      (Trace.run (Stream.step {}) before freshStream).log.length = 1 ∧
      final.completedGeneration = firstEvent.generation ∧ final.ended = true ∧
      final.reader.events.length = 0 := by decide +kernel

end Runkite
