import Runkite.StreamTruth

/-!
# Following the log

The reader of a stream deduplicates runner events by the highest sequence number it has seen of
their generation and policy notices by their ids. If the log is well formed (`LogOk`), this amounts
to a position in the log, the *front* : the events before it are marked and the others are not
(`Marks`). Every event before the front was sent or had a reason not to be (`Caught`).
-/

namespace Runkite

open StreamReader

/-! ## Well formed logs -/

/-- Sequence numbers are positive and increase within a generation, the ids of policy notices are
distinct, and nothing of a generation follows its terminal event. -/
structure LogOk (rd : StreamReader) (log : List RunEvent) : Prop where
  positive : ∀ e ∈ log, 0 < e.seq
  increasing : log.Pairwise fun a b => a.generation = b.generation → a.seq < b.seq
  notices : log.Pairwise fun a b => rd.isPolicyEvent a = true → rd.isPolicyEvent b = true →
    a.eventId ≠ b.eventId
  last : log.Pairwise fun a b => a.isTerminal = true → a.generation ≠ b.generation

theorem pairwise_getElem? {α : Type} {R : α → α → Prop} {l : List α} (h : l.Pairwise R) {i j : ℕ}
    {a b : α} (hi : l[i]? = some a) (hj : l[j]? = some b) (hij : i < j) : R a b := by
  obtain ⟨hi', rfl⟩ := List.getElem?_eq_some_iff.1 hi
  obtain ⟨hj', rfl⟩ := List.getElem?_eq_some_iff.1 hj
  exact List.pairwise_iff_getElem.1 h i j hi' hj' hij

variable {rd rd' : StreamReader} {log : List RunEvent} {i j : ℕ} {a b e : RunEvent}

section

variable (h : LogOk rd log)
include h

theorem LogOk.of_runId (hrun : rd'.runId = rd.runId) : LogOk rd' log where
  positive := h.positive
  increasing := h.increasing
  notices := by
    rw [isPolicyEvent_of_runId hrun]
    exact h.notices
  last := h.last

theorem LogOk.seq_le_iff (ha : log[i]? = some a) (hb : log[j]? = some b)
    (hgen : a.generation = b.generation) : a.seq ≤ b.seq ↔ i ≤ j := by
  constructor
  · intro hle
    by_contra hlt
    have := pairwise_getElem? h.increasing hb ha (by omega) hgen.symm
    omega
  · intro hle
    rcases hle.eq_or_lt with rfl | hlt
    · cases ha.symm.trans hb
      exact le_rfl
    · exact (pairwise_getElem? h.increasing ha hb hlt hgen).le

theorem LogOk.sequenced (he : e ∈ log) : rd.sequenced e = !rd.isPolicyEvent e := by
  simp [StreamReader.sequenced, h.positive e he]

theorem LogOk.isPolicyEvent (he : e ∈ log) (hseq : rd.sequenced e = false) :
    rd.isPolicyEvent e := by simpa [h.sequenced he] using hseq

theorem LogOk.nodup : log.Nodup :=
  h.increasing.imp fun hlt heq => by
    subst heq
    exact absurd (hlt rfl) (lt_irrefl _)

end

/-- A policy notice has an id. -/
theorem eventId_ne_of_isPolicyEvent {rd : StreamReader} {e : RunEvent}
    (h : rd.isPolicyEvent e) : e.eventId ≠ "" := by
  intro hid
  unfold isPolicyEvent at h
  have hgrown := List.isPrefixOf_iff_prefix.1 (Bool.and_eq_true_iff.1 h).2
  rw [hid] at hgrown
  have hlength := hgrown.length_le
  simp at hlength

/-! ## The front -/

/-- The marked events of the log are those before the front. -/
structure Marks (rd : StreamReader) (log : List RunEvent) (front : ℕ) : Prop where
  marked : ∀ i e, log[i]? = some e → (rd.marked e = true ↔ i < front)
  seen : ∀ g seq, rd.seen g = some seq →
    ∃ e ∈ log, rd.sequenced e = true ∧ e.generation = g ∧ e.seq = seq
  control : ∀ id ∈ rd.controlEvents, ∃ e ∈ log, rd.sequenced e = false ∧ e.eventId = id

/-- Why an event before the front was not sent, while the run has attempt generation `g` and a
status : its attempt is superseded, the client has it, or the run was not completed with it. -/
def Excused (rd : StreamReader) (g : ℤ) (status : RunStatus) (e : RunEvent) : Prop :=
  e.generation < g ∨ (∃ since, rd.since = some since ∧ e.seq ≤ since) ∨
    e.isTerminal = true ∧ (e.outcome = none ∨
      status.terminal = true ∧ e.outcome.map Prod.fst ≠ some status)

/-- Every event before the front was sent, in the order of the log, or is excused. -/
structure Caught (rd : StreamReader) (log : List RunEvent) (front : ℕ) (g : ℤ)
    (status : RunStatus) : Prop where
  sent : ∃ events : List RunEvent, rd.emitted = events.map .event ∧
    events.Sublist (log.take front) ∧ ∀ e ∈ events, e.isTerminal = false
  handled : ∀ e ∈ log.take front, Emission.event e ∈ rd.emitted ∨ Excused rd g status e

/-- The reader follows the log up to the front. -/
structure Follows (rd : StreamReader) (log : List RunEvent) (front : ℕ) (g : ℤ)
    (status : RunStatus) : Prop where
  marks : Marks rd log front
  caught : Caught rd log front g status
  generation : rd.generation ≤ g

variable {front : ℕ} {g g' : ℤ} {status status' : RunStatus}

theorem sequenced_of_runId (h : rd'.runId = rd.runId) (e : RunEvent) :
    rd'.sequenced e = rd.sequenced e := by
  rw [sequenced, sequenced, isPolicyEvent_of_runId h]

/-- What the reader follows with, unchanged. -/
structure SameMarks (rd rd' : StreamReader) : Prop where
  runId : rd'.runId = rd.runId
  since : rd'.since = rd.since
  seen : rd'.seen = rd.seen
  control : rd'.controlEvents = rd.controlEvents

theorem SameMarks.marked (h : SameMarks rd rd') (e : RunEvent) : rd'.marked e = rd.marked e := by
  unfold StreamReader.marked
  rw [sequenced_of_runId h.runId, h.seen, h.control]

theorem Marks.of_same (h : Marks rd log front) (hsame : SameMarks rd rd') : Marks rd' log front where
  marked i e he := by rw [hsame.marked, h.marked i e he]
  seen g seq hseen := by
    obtain ⟨e, hmem, hseq, hrest⟩ := h.seen g seq (hsame.seen ▸ hseen)
    exact ⟨e, hmem, by rw [sequenced_of_runId hsame.runId, hseq], hrest⟩
  control id hid := by
    obtain ⟨e, hmem, hseq, hrest⟩ := h.control id (hsame.control ▸ hid)
    exact ⟨e, hmem, by rw [sequenced_of_runId hsame.runId, hseq], hrest⟩

theorem Caught.of_same (h : Caught rd log front g status) (hsince : rd'.since = rd.since)
    (hemitted : rd'.emitted = rd.emitted) : Caught rd' log front g status where
  sent := hemitted ▸ h.sent
  handled e he := by
    rw [hemitted, Excused, hsince]
    exact h.handled e he

theorem Follows.of_same (h : Follows rd log front g status) (hsame : SameMarks rd rd')
    (hemitted : rd'.emitted = rd.emitted) (hle : rd'.generation ≤ g) :
    Follows rd' log front g status :=
  ⟨h.marks.of_same hsame, h.caught.of_same hsame.since hemitted, hle⟩

/-- The reader is only sent somewhere else. -/
theorem Follows.goto (h : Follows rd log front g status) (pc : StreamPc) :
    Follows (rd.goto pc) log front g status :=
  h.of_same ⟨rfl, rfl, rfl, rfl⟩ rfl h.generation

theorem mark_fields (rd : StreamReader) (e : RunEvent) :
    (rd.mark e).runId = rd.runId ∧ (rd.mark e).since = rd.since ∧
      (rd.mark e).emitted = rd.emitted ∧ (rd.mark e).generation = rd.generation ∧
      (rd.mark e).channel = rd.channel ∧ (rd.mark e).pc = rd.pc := by
  unfold mark
  split_ifs <;> exact ⟨rfl, rfl, rfl, rfl, rfl, rfl⟩

section

variable (hlog : LogOk rd log) (h : Marks rd log front) (he : log[front]? = some e)
include hlog h he

/-- Marking the event at the front by its sequence number. -/
theorem Marks.mark_sequenced (hseq : rd.sequenced e) :
    Marks { rd with seen := Function.update rd.seen e.generation (some e.seq) } log (front + 1) where
  marked i e' he' := by
    have hold := h.marked i e' he'
    have hne : rd.sequenced e' = false → i ≠ front := by
      rintro hseq' rfl
      cases he.symm.trans he'
      simp [hseq] at hseq'
    unfold StreamReader.marked at hold ⊢
    change (if rd.sequenced e' = true then _ else _) = true ↔ _
    by_cases hseq' : rd.sequenced e'
    · rw [if_pos hseq'] at hold ⊢
      by_cases hgen : e'.generation = e.generation
      · rw [hgen]
        simp only [Function.update_self, Option.any_some, decide_eq_true_eq]
        rw [hlog.seq_le_iff he' he hgen]
        omega
      · have hi : i ≠ front := by
          rintro rfl
          exact hgen (congrArg RunEvent.generation (Option.mem_unique he' he))
        simp only [Function.update_of_ne hgen]
        rw [hold]
        omega
    · rw [if_neg hseq'] at hold ⊢
      have hi := hne (by simpa using hseq')
      rw [hold]
      omega
  seen g' seq hseen := by
    by_cases hgen : g' = e.generation
    · subst hgen
      obtain rfl : e.seq = seq := by simpa using hseen
      exact ⟨e, List.mem_of_getElem? he, hseq, rfl, rfl⟩
    · exact h.seen g' seq (by simpa [Function.update_of_ne hgen] using hseen)
  control := h.control

/-- Marking the event at the front by its id. -/
theorem Marks.mark_notice (hseq : rd.sequenced e = false) :
    Marks { rd with controlEvents := e.eventId :: rd.controlEvents } log (front + 1) where
  marked i e' he' := by
    have hold := h.marked i e' he'
    have hnotice := hlog.isPolicyEvent (List.mem_of_getElem? he) hseq
    unfold StreamReader.marked at hold ⊢
    change (if rd.sequenced e' = true then _ else _) = true ↔ _
    by_cases hseq' : rd.sequenced e'
    · have hi : i ≠ front := by
        rintro rfl
        cases he.symm.trans he'
        simp [hseq] at hseq'
      rw [if_pos hseq'] at hold ⊢
      rw [hold]
      omega
    · have hseq' : rd.sequenced e' = false := by simpa using hseq'
      rw [if_neg (by simp [hseq'])] at hold ⊢
      have hnotice' := hlog.isPolicyEvent (List.mem_of_getElem? he') hseq'
      have hid : e'.eventId ≠ "" := eventId_ne_of_isPolicyEvent hnotice'
      have hsame : e'.eventId = e.eventId ↔ i = front := by
        constructor
        · intro heq
          rcases Nat.lt_trichotomy i front with hlt | heq' | hlt
          · exact absurd heq (pairwise_getElem? hlog.notices he' he hlt hnotice' hnotice)
          · exact heq'
          · exact absurd heq.symm (pairwise_getElem? hlog.notices he he' hlt hnotice hnotice')
        · rintro rfl
          exact congrArg RunEvent.eventId (Option.mem_unique he' he)
      have hold' : e'.eventId ∈ rd.controlEvents ↔ i < front := by simpa [hid] using hold
      simp only [hid, ne_eq, not_false_eq_true, decide_true, Bool.true_and, List.contains_cons,
        Bool.or_eq_true, beq_iff_eq, List.contains_iff_mem, hsame, hold']
      omega
  seen := h.seen
  control id hid := by
    rcases List.mem_cons.1 hid with rfl | hid
    · exact ⟨e, List.mem_of_getElem? he, hseq, rfl⟩
    · exact h.control id hid

/-- Marking the event at the front moves the front on. -/
theorem Marks.mark : Marks (rd.mark e) log (front + 1) := by
  have hmem := List.mem_of_getElem? he
  have hnot : rd.marked e ≠ true := fun hm => lt_irrefl _ ((h.marked front e he).1 hm)
  unfold StreamReader.mark
  by_cases hseq : rd.sequenced e
  · have hlt : (rd.seen e.generation).getD 0 < e.seq := by
      unfold StreamReader.marked at hnot
      rw [if_pos hseq] at hnot
      cases hseen : rd.seen e.generation with
      | none => exact hlog.positive e hmem
      | some => simpa [hseen] using hnot
    rw [if_pos hseq, if_pos hlt]
    exact h.mark_sequenced hlog he hseq
  · have hseq : rd.sequenced e = false := by simpa using hseq
    have hid := eventId_ne_of_isPolicyEvent (hlog.isPolicyEvent hmem hseq)
    rw [if_neg (by simp [hseq]), if_pos hid]
    exact h.mark_notice hlog he hseq

end

/-- An event is published after the front. -/
theorem Marks.publish (h : Marks rd log front) (hfront : front ≤ log.length)
    (hlog : LogOk rd (log ++ [e])) : Marks rd (log ++ [e]) front where
  marked i e' he' := by
    rcases Nat.lt_or_ge i log.length with hi | hi
    · rw [List.getElem?_append_left hi] at he'
      exact h.marked i e' he'
    · have hnew : i = log.length := by
        have := (List.getElem?_eq_some_iff.1 he').1
        simp at this
        omega
      subst hnew
      obtain rfl : e = e' := by simpa using he'
      have hnot : rd.marked e = false := by
        unfold StreamReader.marked
        have hbefore := (List.pairwise_append.1 hlog.increasing).2.2
        have hids := (List.pairwise_append.1 hlog.notices).2.2
        split_ifs with hseq
        · cases hseen : rd.seen e.generation with
          | none => rfl
          | some =>
            obtain ⟨e₀, hmem, -, hgen, rfl⟩ := h.seen _ _ hseen
            have := hbefore e₀ hmem e (by simp) hgen
            simpa using this
        · by_contra hcon
          have hid : e.eventId ∈ rd.controlEvents := by
            simp only [Bool.not_eq_false, Bool.and_eq_true, List.contains_iff_mem] at hcon
            exact hcon.2
          obtain ⟨e₀, hmem, hseq₀, hid₀⟩ := h.control _ hid
          exact hids e₀ hmem e (by simp) (hlog.isPolicyEvent (by simp [hmem]) hseq₀)
            (hlog.isPolicyEvent (by simp) (by simpa using hseq)) hid₀
      simp only [hnot, Bool.false_eq_true, false_iff]
      omega
  seen g' seq hseen := by
    obtain ⟨e₀, hmem, hrest⟩ := h.seen g' seq hseen
    exact ⟨e₀, List.mem_append_left _ hmem, hrest⟩
  control id hid := by
    obtain ⟨e₀, hmem, hrest⟩ := h.control id hid
    exact ⟨e₀, List.mem_append_left _ hmem, hrest⟩

theorem take_front (he : log[front]? = some e) : log.take (front + 1) = log.take front ++ [e] := by
  rw [List.take_add_one, he]
  rfl

/-- The event at the front is excused. -/
theorem Caught.skip (h : Caught rd log front g status) (he : log[front]? = some e)
    (hex : Excused rd g status e) : Caught rd log (front + 1) g status where
  sent := by
    obtain ⟨events, hemitted, hsub, hsilent⟩ := h.sent
    rw [take_front he]
    exact ⟨events, hemitted, hsub.trans (List.sublist_append_left _ _), hsilent⟩
  handled e' he' := by
    rw [take_front he] at he'
    rcases List.mem_append.1 he' with he' | he'
    · exact h.handled e' he'
    · rw [List.mem_singleton.1 he']
      exact .inr hex

/-- The event at the front is sent. -/
theorem Caught.emit (h : Caught rd log front g status) (he : log[front]? = some e)
    (hterm : e.isTerminal = false) :
    Caught { rd with emitted := rd.emitted ++ [.event e] } log (front + 1) g status where
  sent := by
    obtain ⟨events, hemitted, hsub, hsilent⟩ := h.sent
    rw [take_front he]
    refine ⟨events ++ [e], by simp [hemitted], hsub.append (List.Sublist.refl _), ?_⟩
    intro e' he'
    rcases List.mem_append.1 he' with he' | he'
    · exact hsilent e' he'
    · rw [List.mem_singleton.1 he']
      exact hterm
  handled e' he' := by
    rw [take_front he] at he'
    rcases List.mem_append.1 he' with he' | he'
    · rcases h.handled e' he' with hsent | hex
      · exact .inl (List.mem_append_left _ hsent)
      · exact .inr hex
    · rw [List.mem_singleton.1 he']
      exact .inl (by simp)

theorem Excused.row (h : Excused rd g status e) (hg : g ≤ g')
    (hstatus : status.terminal → status' = status) : Excused rd g' status' e := by
  rcases h with h | h | ⟨hterm, h | ⟨hclosed, hne⟩⟩
  · exact .inl (h.trans_le hg)
  · exact .inr (.inl h)
  · exact .inr (.inr ⟨hterm, .inl h⟩)
  · obtain rfl := hstatus hclosed
    exact .inr (.inr ⟨hterm, .inr ⟨hclosed, hne⟩⟩)

section

variable (h : Follows rd log front g status)
include h

/-- The row of the run changes. -/
theorem Follows.row (hg : g ≤ g')
    (hstatus : status.terminal → status' = status) : Follows rd log front g' status' where
  marks := h.marks
  caught := ⟨h.caught.sent, fun e he => (h.caught.handled e he).imp id fun hex => hex.row hg hstatus⟩
  generation := h.generation.trans hg

theorem Follows.publish (hfront : front ≤ log.length)
    (hlog : LogOk rd (log ++ [e])) : Follows rd (log ++ [e]) front g status where
  marks := h.marks.publish hfront hlog
  caught := by
    have htake : (log ++ [e]).take front = log.take front := List.take_append_of_le_length hfront
    exact ⟨htake ▸ h.caught.sent, htake ▸ h.caught.handled⟩
  generation := h.generation

/-- The event at the front is passed over, for a reason. -/
theorem Follows.skip (hlog : LogOk rd log)
    (he : log[front]? = some e) (hex : Excused rd g status e) :
    Follows (rd.mark e) log (front + 1) g status := by
  obtain ⟨-, hsince, hemitted, hgen, -⟩ := mark_fields rd e
  exact ⟨h.marks.mark hlog he, (h.caught.skip he hex).of_same hsince hemitted, hgen ▸ h.generation⟩

/-- The event at the front is sent and marked. -/
theorem Follows.emit (hlog : LogOk rd log)
    (he : log[front]? = some e) (hterm : e.isTerminal = false) :
    Follows (({ rd with emitted := rd.emitted ++ [.event e] } : StreamReader).mark e) log
      (front + 1) g status := by
  have hmarks : Marks { rd with emitted := rd.emitted ++ [.event e] } log front :=
    h.marks.of_same ⟨rfl, rfl, rfl, rfl⟩
  obtain ⟨-, hsince, hemitted, hgen, -⟩ :=
    mark_fields { rd with emitted := rd.emitted ++ [.event e] } e
  exact ⟨hmarks.mark (hlog.of_runId rfl) he, (h.caught.emit he hterm).of_same hsince hemitted,
    hgen.le.trans h.generation⟩

end

/-! ## Consuming an event -/

/-- Where `consume` goes on. -/
def resumePc : Option (List RunEvent) → StreamPc
  | some rest => .past rest
  | none => .live

/-- The request for the completion with a terminal event. -/
structure CompletesWith (rd : StreamReader) (e : RunEvent) (q : CompletionRequest) : Prop where
  plain : q.Plain
  runId : q.runId = rd.runId
  generation : q.generation = e.generation
  terminal : e.isTerminal = true
  outcome : e.outcome.map Prod.fst = some q.status
  status : q.status.terminal = true

/-- What becomes of the reader when it consumes the event at position `k`. -/
inductive Consumed (log : List RunEvent) (front k : ℕ) (g : ℤ) (status : RunStatus) (e : RunEvent)
    (rest : Option (List RunEvent)) (rd' : StreamReader) : Prop
  | onward (front' : ℕ) (hfront : front ≤ front') (hk : k < front') (hlength : front' ≤ log.length)
    (hfollows : Follows rd' log front' g status) (hpc : rd'.pc = resumePc rest)
  | stopped (hfollows : Follows rd' log front g status) (hpc : rd'.pc = .returned)
  | completing (q : CompletionRequest) (hk : k = front) (hfollows : Follows rd' log front g status)
    (hpc : rd'.pc = .completing e q .read rest) (hq : CompletesWith rd' e q)

variable {k : ℕ} {rest : Option (List RunEvent)} {fails : Bool}

theorem status_terminal_of_outcome {st : RunStatus} {message : String}
    (h : e.outcome = some (st, message)) : st.terminal := by
  unfold RunEvent.outcome at h
  split at h
  · simp at h
  · obtain ⟨st', hst', heq⟩ := Option.map_eq_some_iff.1 h
    obtain ⟨rfl, -⟩ : st' = st ∧ _ := by simpa using heq
    exact (Option.filter_eq_some_iff.1 hst').2

/-- Only the marks, the cursor, the generation, the position and what was sent change. -/
structure SameEnds (rd rd' : StreamReader) : Prop where
  runId : rd'.runId = rd.runId
  since : rd'.since = rd.since
  channel : rd'.channel = rd.channel

theorem SameEnds.trans {rd rd' rd'' : StreamReader} (h : SameEnds rd rd') (h' : SameEnds rd' rd'') :
    SameEnds rd rd'' :=
  ⟨h'.runId.trans h.runId, h'.since.trans h.since, h'.channel.trans h.channel⟩

section

variable (rd : StreamReader)

theorem sameEnds_mark (e : RunEvent) : SameEnds rd (rd.mark e) := by
  obtain ⟨hrun, hsince, -, -, hchannel, -⟩ := mark_fields rd e
  exact ⟨hrun, hsince, hchannel⟩

theorem sameEnds_withCursor (e : RunEvent) : SameEnds rd (rd.withCursor e) := by
  unfold withCursor
  split_ifs <;> exact ⟨rfl, rfl, rfl⟩

theorem sameEnds_resume (rest : Option (List RunEvent)) : SameEnds rd (rd.resume rest) := by
  cases rest <;> exact ⟨rfl, rfl, rfl⟩

theorem sameEnds_judge (e : RunEvent) : SameEnds rd (rd.judge e).1 := by
  have hcursor := sameEnds_withCursor rd e
  unfold judge
  dsimp only
  split_ifs
  · exact ⟨rfl, rfl, rfl⟩
  · exact sameEnds_mark rd e
  · exact hcursor.trans (sameEnds_mark _ e)
  · split
    · exact hcursor.trans (sameEnds_mark _ e)
    · exact hcursor
  · exact hcursor.trans ⟨rfl, rfl, rfl⟩
  · exact hcursor

theorem sameEnds_consume (fails : Bool) (e : RunEvent)
    (rest : Option (List RunEvent)) : SameEnds rd (rd.consume fails e rest) := by
  have hjudge := sameEnds_judge rd e
  unfold consume
  generalize rd.judge e = j at hjudge
  obtain ⟨rd', v⟩ := j
  cases v with
  | skip => exact hjudge.trans (sameEnds_resume rd' rest)
  | complete => exact hjudge.trans ⟨rfl, rfl, rfl⟩
  | emit =>
    split_ifs
    · exact hjudge.trans ⟨rfl, rfl, rfl⟩
    · have hmark := sameEnds_mark { rd' with emitted := rd'.emitted ++ [.event e] } e
      exact (hjudge.trans ⟨hmark.runId, hmark.since, hmark.channel⟩).trans (sameEnds_resume _ rest)

end

theorem Follows.resume (h : Follows rd log front g status) (rest : Option (List RunEvent)) :
    Follows (rd.resume rest) log front g status := by
  cases rest <;> exact h.goto _

theorem pc_resume (rd : StreamReader) (rest : Option (List RunEvent)) :
    (rd.resume rest).pc = resumePc rest := by
  cases rest <;> rfl

theorem Follows.withCursor (h : Follows rd log front g status) (e : RunEvent) :
    Follows (rd.withCursor e) log front g status := by
  unfold StreamReader.withCursor
  split_ifs
  · exact h.of_same ⟨rfl, rfl, rfl, rfl⟩ rfl h.generation
  · exact h

/-- What the front and the verdict on an event are. -/
inductive Verdicts (log : List RunEvent) (front k : ℕ) (g : ℤ) (status : RunStatus)
    (e : RunEvent) (rd' : StreamReader) : Verdict → Prop
  | skip (front' : ℕ) (hfront : front ≤ front') (hk : k < front') (hlength : front' ≤ log.length)
    (hfollows : Follows rd' log front' g status) : Verdicts log front k g status e rd' .skip
  | complete (q : CompletionRequest) (hk : k = front) (hfollows : Follows rd' log front g status)
    (hq : CompletesWith rd' e q) : Verdicts log front k g status e rd' (.complete q)
  | emit (hk : k = front) (hfollows : Follows rd' log front g status)
    (hterm : e.isTerminal = false) : Verdicts log front k g status e rd' .emit

section

variable (hlog : LogOk rd log) (h : Follows rd log front g status) (hfront : front ≤ log.length)
  (hgens : ∀ e ∈ log, e.generation ≤ g) (he : log[k]? = some e) (hk : k ≤ front)
include hlog h hfront hgens he hk

theorem Follows.judge : Verdicts log front k g status e (rd.judge e).1 (rd.judge e).2 := by
  have hmarked := h.marks.marked k e he
  have hlength : k + 1 ≤ log.length := (List.getElem?_eq_some_iff.1 he).1
  unfold StreamReader.judge
  by_cases hm : rd.marked e
  · rw [if_pos hm]
    exact .skip front le_rfl (hmarked.1 hm) hfront h
  rw [if_neg hm]
  obtain rfl : k = front := hk.antisymm (not_lt.1 fun hlt => hm (hmarked.2 hlt))
  by_cases hold : (e.generation < rd.generation && !(e.generation = 0 && rd.isPolicyEvent e))
  · rw [if_pos hold]
    have hlt : e.generation < rd.generation := by simpa using (Bool.and_eq_true_iff.1 hold).1
    exact .skip (k + 1) (Nat.le_succ k) (Nat.lt_succ_self k) hlength
      (h.skip hlog he (.inl (hlt.trans_le h.generation)))
  rw [if_neg hold]
  have hcursor := h.withCursor e
  have hends := sameEnds_withCursor rd e
  have hlog' : LogOk (rd.withCursor e) log := hlog.of_runId hends.runId
  have hskip : Excused (rd.withCursor e) g status e →
      Verdicts log k k g status e ((rd.withCursor e).mark e) .skip := fun hex =>
    .skip (k + 1) (Nat.le_succ k) (Nat.lt_succ_self k) hlength (hcursor.skip hlog' he hex)
  by_cases hbefore : (rd.withCursor e).beforeCursor e
  · rw [if_pos hbefore]
    refine hskip (.inr (.inl ?_))
    unfold beforeCursor at hbefore
    obtain ⟨since, hsince, hle⟩ := (Option.any_eq_true _ _).1 hbefore
    simp only [Bool.and_eq_true, decide_eq_true_eq] at hle
    exact ⟨since, hsince, hle.1.2⟩
  rw [if_neg hbefore]
  by_cases hterm : e.isTerminal
  · rw [if_pos hterm]
    cases houtcome : e.outcome with
    | none => exact hskip (.inr (.inr ⟨hterm, .inl houtcome⟩))
    | some outcome =>
      obtain ⟨_, _⟩ := outcome
      exact .complete _ rfl hcursor ⟨⟨rfl, rfl⟩, rfl, rfl, hterm, by simp [houtcome],
        status_terminal_of_outcome houtcome⟩
  rw [if_neg hterm]
  have hterm : e.isTerminal = false := by simpa using hterm
  split_ifs
  · have hgen : e.generation ≤ g := hgens e (List.mem_of_getElem? he)
    exact .emit rfl (hcursor.of_same ⟨rfl, rfl, rfl, rfl⟩ rfl hgen) hterm
  · exact .emit rfl hcursor hterm

theorem Follows.consume (fails : Bool) (rest : Option (List RunEvent)) :
    Consumed log front k g status e rest (rd.consume fails e rest) := by
  have hverdict := h.judge hlog hfront hgens he hk
  have hends := sameEnds_judge rd e
  unfold StreamReader.consume
  generalize rd.judge e = j at hverdict hends
  obtain ⟨rd', v⟩ := j
  cases hverdict with
  | skip front' hfront' hk' hlength hfollows =>
    exact .onward front' hfront' hk' hlength (hfollows.resume rest) (pc_resume rd' rest)
  | complete q hk' hfollows hq =>
    exact .completing q hk' (hfollows.goto _) rfl
      ⟨hq.plain, hq.runId, hq.generation, hq.terminal, hq.outcome, hq.status⟩
  | emit hk' hfollows hterm =>
    split_ifs
    · exact .stopped (hfollows.goto _) rfl
    · subst hk'
      have hlength : k + 1 ≤ log.length := (List.getElem?_eq_some_iff.1 he).1
      exact .onward (k + 1) (Nat.le_succ k) (Nat.lt_succ_self k) hlength
        ((hfollows.emit (hlog.of_runId hends.runId) he hterm).resume rest) (pc_resume _ rest)

end

end Runkite
