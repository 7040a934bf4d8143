import Runkite.JobQueue
import Runkite.QueueCopies

/-!
# The two job queues agree

The in-process queue and the Redis queue answer the same calls with the same clock. `Agree` relates
the channels, leases and canceled runs of the one to the keys of the other, and each call keeps it
and answers alike (`Agree.serve`), so the two queues answer alike in every sequence of calls
(`queues_agree`). A reclaim may visit the stale leases in another order than oldest first, which
changes neither its count nor its pills, but what a `Dequeue` finds after it. The generations have
to be small enough for Lua to print them, and not negative, and the run ids not empty : a reclaim of
the Redis queue fails on others (`reclaim_guards_differ`).
-/

namespace Runkite

open AssignmentCodec InProcess

/-! ## Agreement -/

variable {runId : String}

namespace Redis

/-- The lease of a run, as the in-process queue holds it. -/
inductive Leased (codec : AssignmentCodec) (runId : String) (s : Redis) :
    Option InflightEntry → Prop where
  | none (hdata : s.data.lookup runId = none) (hzset : s.zset.lookup runId = none) :
    Leased codec runId s none
  | some {p : Payload} {score : ℤ} (hdata : s.data.lookup runId = some p)
    (hzset : s.zset.lookup runId = some score) (hgen : s.gen.lookup runId = some p.generation)
    (hstored : p.Stored) (hrunId : p.runId = some runId) :
    Leased codec runId s (some ⟨codec.job p, score⟩)

theorem Leased.congr {codec : AssignmentCodec} {s s' : Redis}
    {entry : Option InflightEntry} (h : Leased codec runId s entry)
    (hdata : s'.data.lookup runId = s.data.lookup runId)
    (hzset : s'.zset.lookup runId = s.zset.lookup runId)
    (hgen : s'.gen.lookup runId = s.gen.lookup runId) : Leased codec runId s' entry := by
  cases h with
  | none hd hz => exact .none (hdata.trans hd) (hzset.trans hz)
  | some hd hz hg hstored hrunId =>
    exact .some (hdata.trans hd) (hzset.trans hz) (hgen.trans hg) hstored hrunId

/-- A ready entry and the job that it is in the channel of the other queue. -/
def Ready (codec : AssignmentCodec) (e : String × Payload) (job : Job) : Prop :=
  codec.job e.2 = job ∧ e.1 = job.runnerKind ∧ e.2.Stored

end Redis

/-- The two queues hold the same jobs, in the same order, under the same leases. -/
structure Agree (codec : AssignmentCodec) (q : InProcess) (s : Redis) : Prop where
  ready : List.Forall₂ (Redis.Ready codec) s.ready.reverse q.ready
  pending : s.pending = []
  lease : ∀ runId, s.Leased codec runId (q.inflight.lookup runId)
  canceled : ∀ runId, runId ∈ q.canceled ↔ (s.canceled.lookup runId).isSome = true
  sound : q.Sound

/-- The two queues answer the call alike, and agree afterwards. -/
def AnswersAlike (codec : AssignmentCodec) (now : ℤ) (q : InProcess) (s : Redis) (op : QueueOp) :
    Prop :=
  (q.serve now op).1 = (s.serve codec now op).1 ∧
    Agree codec (q.serve now op).2 (s.serve codec now op).2

variable {codec : AssignmentCodec} {q : InProcess} {s : Redis} {now : ℤ} {k : String}

/-- No cancel marker has expired. -/
def Redis.Unexpired (s : Redis) (now : ℤ) : Prop :=
  ∀ e ∈ s.canceled.entries, now - canceledMemberTTL < e.2

theorem Redis.Unexpired.checkCanceled (h : s.Unexpired now) (runId : String) :
    s.checkCanceled runId now = ((s.canceled.lookup runId).isSome, s) := by
  unfold Redis.checkCanceled
  cases hscore : s.canceled.lookup runId with
  | none => rfl
  | some score =>
    have hfresh := h ⟨runId, score⟩ (AList.mem_lookup_iff.1 hscore)
    have hnot : ¬ canceledMemberTTL < now - score := by
      have : now - canceledMemberTTL < score := hfresh
      omega
    simp [hnot]

theorem Agree.lookup_canceled (h : Agree codec q s) (hk : k ∉ q.canceled) :
    s.canceled.lookup k = none := by
  rw [← Option.not_isSome_iff_eq_none]
  exact fun hsome => hk ((h.canceled k).2 hsome)

variable {jobs : List Job} {job : Job} {cutoff : ℤ} {entry : InflightEntry}
  {ready : List (String × Payload)} {r : InProcess.Reclamation × InProcess} {p : Payload}

section

variable (h : Agree codec q s) (hready : List.Forall₂ (Redis.Ready codec) ready.reverse jobs)
include h hready

/-- The jobs of both queues change alike. -/
theorem Agree.of_ready :
    Agree codec { q with ready := jobs } { s with ready := ready, pending := [] } where
  ready := hready
  pending := rfl
  lease runId := (h.lease runId).congr rfl rfl rfl
  canceled := h.canceled
  sound := h.sound

/-- The lease of a run ends in both queues, and their jobs change alike. -/
theorem Agree.untrack (k : String) :
    Agree codec { q with ready := jobs, inflight := q.inflight.erase k }
      { s.untrack k with ready := ready } where
  ready := hready
  pending := h.pending
  lease runId := by
    by_cases hk : runId = k
    · subst hk
      simp only [AList.lookup_erase]
      exact .none (AList.lookup_erase _ _) (AList.lookup_erase _ _)
    · simp only [AList.lookup_erase_ne hk]
      exact (h.lease runId).congr (AList.lookup_erase_ne hk) (AList.lookup_erase_ne hk)
        (AList.lookup_erase_ne hk)
  canceled := h.canceled
  sound := h.sound.erase k

/-- A run gets a lease in both queues. -/
theorem Agree.track {p : Payload} (hstored : p.Stored) (hrunId : p.runId = some k)
    (hk : k ∉ q.canceled) (now : ℤ) :
    Agree codec { q with ready := jobs, inflight := q.inflight.insert k ⟨codec.job p, now⟩ }
      { s.track k p now with ready := ready } where
  ready := hready
  pending := h.pending
  lease runId := by
    by_cases hne : runId = k
    · subst hne
      simp only [AList.lookup_insert]
      exact .some (AList.lookup_insert _) (AList.lookup_insert _) (AList.lookup_insert _) hstored
        hrunId
    · simp only [AList.lookup_insert_ne hne]
      exact (h.lease runId).congr (AList.lookup_insert_ne hne) (AList.lookup_insert_ne hne)
        (AList.lookup_insert_ne hne)
  canceled := h.canceled
  sound := by
    refine h.sound.insert ?_ hk
    simp [job, hrunId]

end

/-! ### Enqueue -/

theorem ready_snoc {e : String × Payload} (h : List.Forall₂ (Redis.Ready codec) ready.reverse jobs)
    (hnew : Redis.Ready codec e job) :
    List.Forall₂ (Redis.Ready codec) (e :: ready).reverse (jobs ++ [job]) := by
  rw [List.reverse_cons]
  exact List.rel_append h (.cons hnew .nil)

theorem Agree.enqueue (h : Agree codec q s) (hfresh : s.Unexpired now)
    (hrunId : job.runId ≠ "") (hgeneration : 0 ≤ job.generation)
    (hroom : (q.serve now (.enqueue job)).1 ≠ .failed) :
    AnswersAlike codec now q s (.enqueue job) := by
  unfold AnswersAlike
  simp only [InProcess.serve, Redis.serve, hfresh.checkCanceled, InProcess.enqueue] at hroom ⊢
  by_cases hcanceled : job.runId ∈ q.canceled
  · rw [if_pos hcanceled, (h.canceled _).1 hcanceled]
    exact ⟨rfl, h⟩
  · rw [if_neg hcanceled, h.lookup_canceled hcanceled]
    rw [if_neg hcanceled] at hroom
    split_ifs at hroom ⊢ with hfull
    · exact absurd rfl hroom
    · have hjob : Redis.Ready codec (job.runnerKind, (codec.assignment job).marshal) job := by
        refine ⟨codec.job_marshal job, rfl, ⟨job.runId, RunAssignment.runId_marshal _, hrunId⟩,
          ⟨job.runnerKind, RunAssignment.runnerKind_marshal _⟩, ?_⟩
        rw [RunAssignment.generation_of_marshal]
        exact hgeneration
      have hready := ready_snoc h.ready hjob
      exact ⟨rfl, hready, h.pending, fun runId => (h.lease runId).congr rfl rfl rfl, h.canceled,
        h.sound⟩

/-! ### Dequeue -/

/-- Receiving from two lists whose entries correspond. -/
theorem forall₂_receive {α β : Type} {R : α → β → Prop} {p : α → Bool} {p' : β → Bool}
    (hp : ∀ a b, R a b → p a = p' b) : ∀ {l : List α} {l' : List β}, List.Forall₂ R l l' →
      l.find? p = none ∧ l'.find? p' = none ∨
      ∃ a b, l.find? p = some a ∧ l'.find? p' = some b ∧ R a b ∧
        List.Forall₂ R (l.eraseP p) (l'.eraseP p')
  | _, _, .nil => .inl ⟨rfl, rfl⟩
  | a :: l, b :: l', .cons hab h => by
    have hhead := hp a b hab
    by_cases ha : p a
    · have hb : p' b := hhead ▸ ha
      exact .inr ⟨a, b, by simp [ha], by simp [hb], hab, by simpa [ha, hb] using h⟩
    · have hb : ¬ p' b := hhead ▸ ha
      obtain ⟨hl, hl'⟩ | ⟨a', b', hl, hl', hab', hrest⟩ := forall₂_receive hp h
      · exact .inl ⟨by simp [ha, hl], by simp [hb, hl']⟩
      · refine .inr ⟨a', b', by simp [ha, hl], by simp [hb, hl'], hab', ?_⟩
        rw [List.eraseP_cons_of_neg ha, List.eraseP_cons_of_neg hb]
        exact .cons hab hrest

/-- The right end of the list of a kind is its oldest entry. -/
theorem Redis.popRight_eq (kind : String) : ∀ es : List (String × Payload), popRight kind es =
    (es.reverse.find? fun e => e.1 = kind).map fun e =>
      (e.2, (es.reverse.eraseP fun e => e.1 = kind).reverse)
  | [] => rfl
  | e :: es => by
    rw [popRight, popRight_eq kind es, List.reverse_cons, List.find?_append]
    cases hfind : es.reverse.find? fun e => e.1 = kind with
    | some =>
      rw [List.eraseP_append_left (List.find?_some hfind) _ (List.mem_of_find?_eq_some hfind)]
      simp
    | none =>
      rw [List.eraseP_append_right _ (by simpa using hfind)]
      by_cases hkind : e.1 = kind <;> simp [hkind]

theorem Agree.dequeue (kind : String) : ∀ (rounds : ℕ) {q : InProcess}
    {s : Redis}, s.Unexpired now → Agree codec q s →
      AnswersAlike codec now q s (.dequeue kind rounds)
  | 0, q, s, _, h => ⟨rfl, h⟩
  | rounds + 1, q, s, hfresh, h => by
    have hkinds : ∀ (e : String × Payload) (job : Job), Redis.Ready codec e job →
        decide (e.1 = kind) = decide (job.runnerKind = kind) := by
      rintro e job ⟨-, heq, -⟩
      rw [heq]
    unfold AnswersAlike
    simp only [InProcess.serve, Redis.serve, InProcess.dequeue, Redis.dequeue, Redis.blmove,
      Redis.popRight_eq]
    obtain ⟨hnone, hnone'⟩ | ⟨e, job, hsome, hsome', ⟨rfl, -, hstored⟩, hrest⟩ :=
      forall₂_receive hkinds h.ready
    · rw [hnone, hnone']
      exact ⟨rfl, h⟩
    · rw [← List.reverse_reverse (s.ready.reverse.eraseP fun e => e.1 = kind)] at hrest
      rw [hsome, hsome']
      obtain ⟨runId, hrunId, -⟩ := hstored.runId
      have hid : (codec.job e.2).runId = runId := by simp [job, hrunId]
      have hcheck : ∀ ready, ({ s with ready := ready, pending := [] } : Redis).checkCanceled runId
          now = ((s.canceled.lookup runId).isSome, { s with ready := ready, pending := [] }) :=
        fun ready => Redis.Unexpired.checkCanceled (s := { s with ready := ready, pending := [] })
          hfresh runId
      simp only [Option.map_some, Redis.promote, hrunId, h.pending, List.mem_singleton, if_true,
        List.erase_cons_head, hcheck, hid]
      by_cases hcanceled : runId ∈ q.canceled
      · rw [if_pos hcanceled, (h.canceled _).1 hcanceled]
        exact Agree.dequeue kind rounds (by exact hfresh) (h.of_ready hrest)
      · rw [if_neg hcanceled, h.lookup_canceled hcanceled]
        refine ⟨rfl, ?_⟩
        exact (h.of_ready hrest).track hrest hstored hrunId hcanceled now

/-! ### Ack, renew, nack, lookup -/

section

variable (h : Agree codec q s) (runId : String) (generation : ℤ)
include h

/-- The lease that a generation matches, in both queues. -/
theorem Agree.matching : q.matching runId generation = none ∧
      ((s.data.lookup runId).isSome && s.checkGeneration runId generation) = false ∨
    ∃ p score, q.matching runId generation = some ⟨codec.job p, score⟩ ∧
      s.data.lookup runId = some p ∧ s.zset.lookup runId = some score ∧
      s.gen.lookup runId = some p.generation ∧ p.Stored ∧ p.runId = some runId ∧
      s.checkGeneration runId generation := by
  have hlease := h.lease runId
  unfold InProcess.matching
  generalize q.inflight.lookup runId = entry at hlease ⊢
  cases hlease with
  | none hdata hzset => exact .inl ⟨rfl, by simp [hdata]⟩
  | @some p score hdata hzset hgen hstored hrunId =>
    by_cases hmatch : p.generation = generation
    · refine .inr ⟨p, score, ?_, hdata, hzset, hgen, hstored, hrunId, ?_⟩
      · simp [job, hmatch]
      · simp [Redis.checkGeneration, hgen, hmatch]
    · refine .inl ⟨?_, ?_⟩
      · simp [job, hmatch]
      · simp [Redis.checkGeneration, hgen, hmatch]

theorem Agree.ack : AnswersAlike codec now q s (.ack runId generation) := by
  unfold AnswersAlike
  simp only [InProcess.serve, Redis.serve, InProcess.ack, Redis.ack]
  obtain ⟨hnone, hnot⟩ | ⟨p, _, hsome, hdata, -, -, -, -, hcheck⟩ := h.matching runId generation
  · rw [hnone, hnot]
    exact ⟨rfl, h⟩
  · rw [hsome, hdata, hcheck]
    exact ⟨rfl, h.untrack h.ready runId⟩

theorem Agree.renew : AnswersAlike codec now q s (.renew runId generation) := by
  unfold AnswersAlike
  simp only [InProcess.serve, Redis.serve, InProcess.renew, Redis.renew]
  obtain ⟨hnone, hnot⟩ | ⟨p, _, hsome, hdata, _, hgen, hstored, hrunId, hcheck⟩ :=
    h.matching runId generation
  · rw [hnone, hnot]
    exact ⟨rfl, h⟩
  · have hnot : runId ∉ q.canceled :=
      (h.sound runId _ (InProcess.lookup_of_matching hsome)).2
    rw [hsome, hdata, hcheck]
    refine ⟨rfl, h.ready, h.pending, fun k => ?_, h.canceled, h.sound.insert ?_ hnot⟩
    · by_cases hk : k = runId
      · subst hk
        simp only [Prod.map_snd, id, AList.lookup_insert]
        exact .some hdata (AList.lookup_insert _) hgen hstored hrunId
      · simp only [Prod.map_snd, id, AList.lookup_insert_ne hk]
        exact (h.lease k).congr rfl (AList.lookup_insert_ne hk) rfl
    · simp [job, hrunId]

theorem Agree.nack (hroom : (q.serve now (.nack runId generation)).1 ≠ .failed) :
    AnswersAlike codec now q s (.nack runId generation) := by
  unfold AnswersAlike
  simp only [InProcess.serve, Redis.serve, InProcess.nack, Redis.nack] at hroom ⊢
  obtain ⟨hnone, hnot⟩ | ⟨p, _, hsome, hdata, -, -, hstored, hrunId, hcheck⟩ :=
    h.matching runId generation
  · rw [hnone]
    cases hdata : s.data.lookup runId with
    | none => exact ⟨rfl, h⟩
    | some =>
      rw [hdata] at hnot
      have hcheck : s.checkGeneration runId generation = false := by simpa using hnot
      simp only [hcheck]
      exact ⟨rfl, h⟩
  · have hid : (codec.job p).runId = runId := by simp [job, hrunId]
    have hnot : runId ∉ q.canceled :=
      (h.sound runId _ (InProcess.lookup_of_matching hsome)).2
    obtain ⟨kind, hkind⟩ := hstored.runnerKind
    have hjob : Redis.Ready codec (kind, p) (codec.job p) :=
      ⟨rfl, by simp [job, hkind], hstored⟩
    simp only [hsome, hdata, hcheck, hkind, h.lookup_canceled hnot] at hroom ⊢
    obtain ⟨hfull, -⟩ | ⟨hsend, -⟩ := InProcess.enqueueReadyLocked_cases (q := q) (hid ▸ hnot)
    · rw [hfull] at hroom
      exact absurd rfl hroom
    · rw [hsend]
      exact ⟨rfl, h.untrack (ready_snoc h.ready hjob) runId⟩

end

theorem Agree.lookupInflight (h : Agree codec q s) (runId : String) :
    AnswersAlike codec now q s (.lookupInflight runId) := by
  refine ⟨?_, h⟩
  have hlease := h.lease runId
  simp only [InProcess.serve, Redis.serve]
  generalize q.inflight.lookup runId = entry at hlease ⊢
  cases hlease with
  | none hdata hzset | some hdata hzset hgen hstored hrunId => rw [hdata]; rfl

/-! ### Cancel -/

/-- Trimming leaves the markers that have not expired. -/
theorem Redis.lookup_trimCanceled_of_fresh
    (h : ∀ e ∈ s.canceled.entries, cutoff < e.2) (k : String) :
    (s.trimCanceled cutoff).canceled.lookup k = s.canceled.lookup k := by
  have hfold : ∀ l : List (Sigma fun _ : String => ℤ), l.NodupKeys →
      (l.foldr (fun e (m : Hash ℤ) => m.insert e.1 e.2) ∅).lookup k = l.dlookup k := by
    intro l hl
    induction l with
    | nil => rfl
    | cons e l ih =>
      rw [List.foldr_cons]
      by_cases hk : k = e.1
      · subst hk
        rw [AList.lookup_insert, List.dlookup_cons_eq]
      · rw [AList.lookup_insert_ne hk, List.dlookup_cons_ne _ _ hk, ih (List.nodupKeys_cons.1 hl).2]
  have hall : (s.canceled.entries.filter fun e => cutoff < e.2) = s.canceled.entries :=
    List.filter_eq_self.2 fun e he => by simpa using h e he
  simp only [trimCanceled, hall]
  exact hfold _ s.canceled.nodupKeys

theorem Agree.cancel (h : Agree codec q s) (hfresh : s.Unexpired now) (runId : String) :
    AnswersAlike codec now q s (.cancel runId) := by
  have huntracked := h.untrack h.ready runId
  have hentries : ∀ e ∈ (s.canceled.insert runId now).entries, now - canceledMemberTTL < e.2 := by
    intro e he
    rw [AList.entries_insert, List.mem_cons] at he
    obtain rfl | he := he
    · exact sub_lt_self now (by decide)
    · exact hfresh e ((List.kerase_sublist _ _).subset he)
  have hmarkers : ∀ k, (s.cancel runId now).canceled.lookup k =
      (s.canceled.insert runId now).lookup k := fun k =>
    Redis.lookup_trimCanceled_of_fresh (s := { s.untrack runId with
      canceled := s.canceled.insert runId now }) hentries k
  refine ⟨rfl, h.ready, h.pending, fun k => (huntracked.lease k).congr rfl rfl rfl, fun k => ?_, ?_⟩
  · simp only [InProcess.serve, Redis.serve, InProcess.cancel, hmarkers, List.mem_cons]
    by_cases hk : k = runId
    · subst hk
      simp
    · simp only [hk, false_or, AList.lookup_insert_ne hk]
      exact h.canceled k
  · intro k entry hentry
    have hk : k ≠ runId := by
      rintro rfl
      simp [InProcess.serve, InProcess.cancel] at hentry
    obtain ⟨hrun, hnot⟩ := huntracked.sound k entry hentry
    exact ⟨hrun, fun hmem => (List.mem_cons.1 hmem).elim hk hnot⟩

/-! ### Reclaim -/

/-- What the two loops made of the same ids. -/
structure Swept (codec : AssignmentCodec) (s : Redis) (r : InProcess.Reclamation × InProcess)
    (o : List (String × Redis.Reclaimed) × Redis) : Prop where
  failed : o.1.any Redis.hasFailed = false
  reclaimed : r.1.reclaimed = o.1.countP fun outcome => outcome.2 = .requeued
  dead : (o.1.filterMap Redis.deadEntry).mapM codec.parseDeadEntry = some r.1.dead
  agree : Agree codec r.2 o.2
  markers : o.2.canceled = s.canceled

/-- A stale lease in the loop of the script. -/
theorem Agree.reclaimOne (h : Agree codec q s) (hfresh : s.Unexpired now)
    (hstale : q.stale cutoff runId = some entry) (maxRetries : ℤ) :
    ∃ p kind, codec.job p = entry.job ∧ p.Stored ∧ p.runId = some runId ∧
      p.runnerKind = some kind ∧ Redis.reclaimOne now maxRetries s runId =
        if exhausted maxRetries entry then (.dead (entry.job.generation + 1) p, s)
        else (.requeued, { s with
          ready := (kind, p.appendGeneration (entry.job.generation + 1)) :: s.ready
          gen := s.gen.insert runId (entry.job.generation + 1)
          zset := s.zset.erase runId
          data := s.data.erase runId }) := by
  have hlookup := lookup_of_stale hstale
  have hnot : runId ∉ q.canceled := (h.sound runId entry hlookup).2
  have hlease := h.lease runId
  rw [hlookup] at hlease
  cases hlease with
  | @some p score hdata hzset hgen hstored hrunId =>
    obtain ⟨kind, hkind⟩ := hstored.runnerKind
    have hpositive : ¬ p.generation < 0 := not_lt.2 hstored.generation
    refine ⟨p, kind, rfl, hstored, hrunId, hkind, ?_⟩
    simp only [Redis.reclaimOne, hdata, hfresh.checkCanceled, h.lookup_canceled hnot,
      Option.isSome_none, hgen, Option.getD_some, if_neg hpositive, Option.isSome_some, if_true,
      hkind, exhausted, Bool.and_eq_true, decide_eq_true_eq]
    rfl

/-- The pill of a lease passes the checks of `parseDeadEntry`. -/
theorem parseDeadEntry_stored
    (hstored : p.Stored) (hrunId : p.runId = some runId) (hjob : codec.job p = entry.job) :
    codec.parseDeadEntry (runId, entry.job.generation + 1, p) =
      some (pill runId entry) := by
  obtain ⟨_, hid, hne⟩ := hstored.runId
  cases hrunId.symm.trans hid
  have hgeneration : p.generation = entry.job.generation := congrArg Job.generation hjob
  have hpositive := hstored.generation
  have hgt : ¬ entry.job.generation + 1 ≤ 0 := by omega
  simp [parseDeadEntry, hne, hgt, hrunId, hjob, pill]

/-- The script appends the next generation to the payload of a lease. -/
theorem ready_nextAttempt {kind : String}
    (hstored : p.Stored) (hkind : p.runnerKind = some kind) (hjob : codec.job p = entry.job) :
    Redis.Ready codec (kind, p.appendGeneration (entry.job.generation + 1))
      (nextAttempt entry) := by
  obtain ⟨id, hid, hne⟩ := hstored.runId
  have hgeneration : p.generation = entry.job.generation := congrArg Job.generation hjob
  have hpositive := hstored.generation
  refine ⟨by rw [job_appendGeneration, hjob]; rfl, ?_, ?_⟩
  · rw [nextAttempt, ← hjob]
    simp [job, hkind]
  · refine ⟨⟨id, by simpa using hid, hne⟩, ⟨kind, by simpa using hkind⟩, ?_⟩
    rw [Payload.generation_appendGeneration]
    omega

/-- A lease ends in both queues and its job is sent; the generation key outlives the lease. -/
theorem Agree.requeue (h : Agree codec q s) (k : String) {e : String × Payload}
    (hready : Redis.Ready codec e job) (generation : ℤ) : Agree codec (q.requeue k job) { s with
      ready := e :: s.ready
      gen := s.gen.insert k generation
      zset := s.zset.erase k
      data := s.data.erase k } := by
  have huntracked := h.untrack (ready_snoc h.ready hready) k
  refine ⟨huntracked.ready, h.pending, fun runId => ?_, h.canceled, huntracked.sound⟩
  by_cases hk : runId = k
  · subst hk
    simp only [InProcess.requeue, AList.lookup_erase]
    exact .none (AList.lookup_erase _ _) (AList.lookup_erase _ _)
  · refine (huntracked.lease runId).congr rfl rfl ?_
    exact (AList.lookup_insert_ne hk).trans (AList.lookup_erase_ne hk).symm

/-- The loops of both queues over the same stale leases. -/
theorem Agree.reclaimLoop {cutoff maxRetries : ℤ} : ∀ (runIds : List String) {q : InProcess}
    {s : Redis}, Agree codec q s → s.Unexpired now → runIds.Nodup →
    (∀ runId ∈ runIds, ∃ entry, q.stale cutoff runId = some entry) →
    (InProcess.reclaimLoop cutoff maxRetries none runIds q).1.err = none →
    Swept codec s (InProcess.reclaimLoop cutoff maxRetries none runIds q)
      (Redis.reclaimOutcomes now maxRetries s runIds)
  | [], q, s, h, _, _, _, _ => ⟨rfl, rfl, rfl, h, rfl⟩
  | runId :: runIds, q, s, h, hfresh, hnodup, hstale, hroom => by
    obtain ⟨hnew, hnodup⟩ := List.nodup_cons.1 hnodup
    obtain ⟨⟨entry, hentry⟩, htail⟩ := List.forall_mem_cons.1 hstale
    obtain ⟨p, _, hjob, hstored, hrunId, hkind, hone⟩ := h.reclaimOne hfresh hentry maxRetries
    simp only [InProcess.reclaimLoop, Redis.reclaimOutcomes, hentry, hone] at hroom ⊢
    by_cases hexhausted : InProcess.exhausted maxRetries entry
    · simp only [hexhausted, if_true] at hroom ⊢
      have hrest := Agree.reclaimLoop runIds h hfresh hnodup htail hroom
      refine ⟨hrest.failed, hrest.reclaimed, ?_, hrest.agree, hrest.markers⟩
      have hparse := parseDeadEntry_stored hstored hrunId hjob
      simp only [Prod.map_fst, List.filterMap_cons, Redis.deadEntry, List.mapM_cons, hparse,
        hrest.dead]
      rfl
    · simp only [hexhausted, Bool.false_eq_true, if_false] at hroom ⊢
      obtain ⟨hfull, -⟩ | ⟨hsend, -⟩ :=
        InProcess.enqueueReadyLocked_cases (h.sound.not_mem_nextAttempt hentry)
      · rw [hfull] at hroom
        cases hroom
      · rw [hsend] at hroom ⊢
        have hleft : ∀ k ∈ runIds, ∃ entry', (q.requeue runId
            (InProcess.nextAttempt entry)).stale cutoff k = some entry' := by
          intro k hk
          have hne : k ≠ runId := fun heq => hnew (heq ▸ hk)
          rw [InProcess.stale_requeue hne]
          exact htail k hk
        have hagree := h.requeue runId (ready_nextAttempt hstored hkind hjob)
          (entry.job.generation + 1)
        have hrest := Agree.reclaimLoop runIds hagree hfresh hnodup hleft hroom
        refine ⟨hrest.failed, ?_, hrest.dead, hrest.agree, hrest.markers⟩
        have hreclaimed := hrest.reclaimed
        simp only [Prod.map_fst, List.countP_cons, decide_true, if_true]
        rw [← hreclaimed]
        rfl

/-- The loop of the script, with what it did about each id and without. -/
theorem Redis.reclaimLoop_eq (maxRetries : ℤ) : ∀ (runIds : List String) (s : Redis),
    (Redis.reclaimOutcomes now maxRetries s runIds).1.any Redis.hasFailed = false →
    Redis.reclaimLoop now maxRetries s runIds =
      (none, (Redis.reclaimOutcomes now maxRetries s runIds).2)
  | [], _, _ => rfl
  | runId :: runIds, s, h => by
    rw [Redis.reclaimOutcomes] at h ⊢
    rw [Redis.reclaimLoop]
    rcases hone : Redis.reclaimOne now maxRetries s runId with ⟨outcome, s'⟩
    rw [hone] at h
    -- every outcome but an error lets the loop go on
    cases outcome with
    | failed => cases h
    | dropped | requeued | dead => exact Redis.reclaimLoop_eq maxRetries runIds s' h

/-! ### The stale leases of both queues -/

theorem Redis.mem_staleIds :
    runId ∈ s.staleIds cutoff ↔ ∃ score, s.zset.lookup runId = some score ∧ score ≤ cutoff := by
  simp only [Redis.staleIds, List.mem_map, List.mem_insertionSort, List.mem_filter,
    decide_eq_true_eq]
  constructor
  · rintro ⟨⟨k, score⟩, ⟨hmem, hscore⟩, rfl⟩
    exact ⟨score, AList.mem_lookup_iff.2 hmem, hscore⟩
  · rintro ⟨score, hlookup, hscore⟩
    exact ⟨⟨runId, score⟩, ⟨AList.mem_lookup_iff.1 hlookup, hscore⟩, rfl⟩

theorem Redis.nodup_staleIds (s : Redis) (cutoff : ℤ) : (s.staleIds cutoff).Nodup := by
  have hperm := (List.perm_insertionSort (fun a b : Sigma fun _ : String => ℤ =>
    a.2 < b.2 ∨ a.2 = b.2 ∧ a.1 ≤ b.1) (s.zset.entries.filter fun e => e.2 ≤ cutoff)).map Sigma.fst
  refine hperm.nodup_iff.2 (List.Nodup.sublist ?_ s.zset.keys_nodup)
  exact List.filter_sublist.map Sigma.fst

section

variable (h : Agree codec q s)
include h

theorem Agree.lookup_zset (runId : String) :
    s.zset.lookup runId = (q.inflight.lookup runId).map InflightEntry.dequeuedAt := by
  have hlease := h.lease runId
  generalize q.inflight.lookup runId = entry at hlease ⊢
  cases hlease with
  | none hdata hzset | some hdata hzset hgen hstored hrunId => exact hzset

theorem Agree.mem_staleIds (hcutoff : ∀ e ∈ q.inflight.entries, e.2.dequeuedAt ≠ cutoff)
    (runId : String) :
    runId ∈ s.staleIds cutoff ↔ ∃ entry, q.stale cutoff runId = some entry := by
  rw [Redis.mem_staleIds, h.lookup_zset, stale]
  cases hentry : q.inflight.lookup runId with
  | none => simp
  | some entry =>
    have hne : entry.dequeuedAt ≠ cutoff := hcutoff ⟨runId, entry⟩ (AList.mem_lookup_iff.1 hentry)
    have hiff : entry.dequeuedAt ≤ cutoff ↔ entry.dequeuedAt < cutoff :=
      ⟨fun hle => lt_of_le_of_ne hle hne, le_of_lt⟩
    simp [Option.filter_some, hiff]

/-- Both reclaims come to the same leases. -/
theorem Agree.perm_staleIds (hcutoff : ∀ e ∈ q.inflight.entries, e.2.dequeuedAt ≠ cutoff)
    (order : MapOrder) :
    (q.staleVisited cutoff order).Perm (s.staleIds cutoff) := by
  have hvisit := order.2 q.inflight.keys
  have hnodup : (q.staleVisited cutoff order).Nodup :=
    (hvisit.nodup_iff.2 q.inflight.keys_nodup).filter _
  refine (List.perm_ext_iff_of_nodup hnodup (s.nodup_staleIds cutoff)).2 fun runId => ?_
  rw [h.mem_staleIds hcutoff, staleVisited, List.mem_filter, Option.isSome_iff_exists]
  refine ⟨And.right, fun hstale => ⟨hvisit.mem_iff.2 ?_, hstale⟩⟩
  obtain ⟨entry, hentry⟩ := hstale
  exact AList.mem_keys.1 (AList.lookup_isSome.1
    (Option.isSome_iff_exists.2 ⟨entry, lookup_of_stale hentry⟩))

/-- The sorted set yields the oldest lease first. -/
theorem Agree.pairwise_staleIds (cutoff : ℤ) : (s.staleIds cutoff).Pairwise q.sooner := by
  let r : (Sigma fun _ : String => ℤ) → (Sigma fun _ : String => ℤ) → Prop :=
    fun a b => a.2 < b.2 ∨ a.2 = b.2 ∧ a.1 ≤ b.1
  have : Std.Total r := ⟨fun a b => by
    rcases lt_trichotomy a.2 b.2 with hlt | heq | hgt
    · exact .inl (.inl hlt)
    · exact (le_total a.1 b.1).imp (fun hle => .inr ⟨heq, hle⟩) fun hle => .inr ⟨heq.symm, hle⟩
    · exact .inr (.inl hgt)⟩
  have : IsTrans _ r := ⟨fun a b c hab hbc => by
    rcases hab with hab | ⟨hab, hab'⟩ <;> rcases hbc with hbc | ⟨hbc, hbc'⟩
    · exact .inl (hab.trans hbc)
    · exact .inl (hbc ▸ hab)
    · exact .inl (hab ▸ hbc)
    · exact .inr ⟨hab.trans hbc, hab'.trans hbc'⟩⟩
  rw [Redis.staleIds, List.pairwise_map]
  refine (List.pairwise_insertionSort r _).imp_of_mem fun {a b} ha hb hab => ?_
  have hscore : ∀ e ∈ (s.zset.entries.filter fun e => e.2 ≤ cutoff).insertionSort r,
      q.dequeuedAt e.1 = e.2 := by
    intro e he
    have hmem : e ∈ s.zset.entries := (List.mem_filter.1 ((List.mem_insertionSort r).1 he)).1
    rw [dequeuedAt, ← h.lookup_zset, AList.mem_lookup_iff.2 hmem, Option.getD_some]
  rw [sooner, hscore a ha, hscore b hb]
  exact hab

/-- A reclaim that visits the oldest lease first visits them as the sorted set yields them. -/
theorem Agree.staleVisited_eq (hcutoff : ∀ e ∈ q.inflight.entries, e.2.dequeuedAt ≠ cutoff)
    {order : MapOrder}
    (hordered : (q.staleVisited cutoff order).Pairwise q.sooner) :
    q.staleVisited cutoff order = s.staleIds cutoff := by
  refine (h.perm_staleIds hcutoff order).eq_of_pairwise (fun a b _ _ hab hba => ?_) hordered
    (h.pairwise_staleIds cutoff)
  obtain hab | ⟨heq, hab⟩ := hab <;> obtain hba | ⟨heq', hba⟩ := hba
  · omega
  · omega
  · omega
  · exact le_antisymm hab hba

end

section

variable {o : List (String × Redis.Reclaimed) × Redis} (h : Swept codec s r o)
include h

/-- What `ReclaimStale` makes of a reply that agrees with the other loop. -/
theorem Swept.reply : Redis.reclaimReply codec o.1 = .reclaimed r.1.reclaimed r.1.dead := by
  have hfailed : ¬ o.1.any Redis.hasFailed := by simp [h.failed]
  rw [Redis.reclaimReply, if_neg hfailed, h.dead, h.reclaimed]

/-- The markers are trimmed after the loop, and none has expired. -/
theorem Swept.trimmed (hfresh : s.Unexpired now) :
    Agree codec r.2 (o.2.trimCanceled (now - canceledMemberTTL)) where
  ready := h.agree.ready
  pending := h.agree.pending
  lease runId := (h.agree.lease runId).congr rfl rfl rfl
  canceled runId := by
    have hentries : ∀ e ∈ o.2.canceled.entries, now - canceledMemberTTL < e.2 := by
      rw [h.markers]
      exact hfresh
    rw [Redis.lookup_trimCanceled_of_fresh hentries]
    exact h.agree.canceled runId
  sound := h.agree.sound

end

/-- A reclaim gives the same count and the same pills in any order, and leaves the same queues
where it visits the oldest lease first. -/
theorem Agree.reclaimStale (h : Agree codec q s) (hfresh : s.Unexpired now) {maxAge : ℤ}
    (hcutoff : ∀ e ∈ q.inflight.entries, e.2.dequeuedAt ≠ now - maxAge) (maxRetries : ℤ)
    (order : MapOrder) (hroom : (q.serve now (.reclaimStale maxAge maxRetries order)).1 ≠ .failed) :
    QueueReply.Alike (q.serve now (.reclaimStale maxAge maxRetries order)).1
      (s.serve codec now (.reclaimStale maxAge maxRetries order)).1 ∧
    ((q.staleVisited (now - maxAge) order).Pairwise q.sooner →
      Agree codec (q.serve now (.reclaimStale maxAge maxRetries order)).2
        (s.serve codec now (.reclaimStale maxAge maxRetries order)).2) := by
  have hnodup : (order.1 q.inflight.keys).Nodup :=
    (order.2 _).nodup_iff.2 q.inflight.keys_nodup
  have hvisit : q.reclaimStale none (now - maxAge) maxRetries order =
      InProcess.reclaimLoop (now - maxAge) maxRetries none
        (q.staleVisited (now - maxAge) order) q :=
    InProcess.reclaimLoop_filter _ _ _ h.sound hnodup
  have hdrain : s.drainPending now = s := by
    rw [Redis.drainPending, h.pending, List.foldl_nil, ← h.pending]
  simp only [InProcess.serve, Redis.serve, hdrain, hvisit, Prod.map_fst, Prod.map_snd, id]
    at hroom ⊢
  have herr : (InProcess.reclaimLoop (now - maxAge) maxRetries none
      (q.staleVisited (now - maxAge) order) q).1.err = none := by
    rw [← Option.not_isSome_iff_eq_none]
    exact fun hsome => hroom (if_pos hsome)
  obtain ⟨herr', hreclaimed, hdead⟩ := InProcess.reclaimLoop_perm h.sound (hnodup.filter _)
    (h.perm_staleIds hcutoff order) herr
  have hswept := Agree.reclaimLoop (s.staleIds (now - maxAge)) h hfresh
    (s.nodup_staleIds _) (fun runId => (h.mem_staleIds hcutoff runId).1) herr'
  constructor
  · rw [hswept.reply, herr]
    exact ⟨hreclaimed, hdead⟩
  · intro hordered
    rw [Redis.reclaimStale, Redis.reclaimLoop_eq maxRetries _ s hswept.failed,
      h.staleVisited_eq hcutoff hordered]
    exact hswept.trimmed hfresh

/-! ## Sequences of calls -/

/-- Both queues serve a call, at the same time. -/
def serveBoth (codec : AssignmentCodec) (call : ℤ × QueueOp) (st : InProcess × Redis) :
    InProcess × Redis :=
  ((st.1.serve call.1 call.2).2, (st.2.serve codec call.1 call.2).2)

/-- The two queues, empty at first, after the calls. -/
def afterCalls (codec : AssignmentCodec) (calls : List (ℤ × QueueOp)) : InProcess × Redis :=
  Trace.run (serveBoth codec) calls ({}, {})

/-- One call to queues that agree. -/
theorem Agree.serve {codec : AssignmentCodec} {q : InProcess} {s : Redis} (h : Agree codec q s)
    {now : ℤ} {op : QueueOp} (hcomparable : op.comparable now q s)
    (hregular : op.regular q) :
    QueueReply.Alike (q.serve now op).1 (s.serve codec now op).1 ∧
      (op.ordered now q → Agree codec (q.serve now op).2 (s.serve codec now op).2) := by
  simp only [QueueOp.comparable, Bool.and_eq_true, decide_eq_true_eq, List.all_eq_true]
    at hcomparable
  obtain ⟨⟨hroom, hfresh⟩, hcutoff⟩ := hcomparable
  have hroom := serve_ne_failed h.sound hroom
  have hequal (hop : AnswersAlike codec now q s op) :
      QueueReply.Alike (q.serve now op).1 (s.serve codec now op).1 ∧
        (op.ordered now q → Agree codec (q.serve now op).2 (s.serve codec now op).2) :=
    ⟨hop.1 ▸ .refl _, fun _ => hop.2⟩
  cases op with
  | enqueue =>
    simp only [QueueOp.regular, Bool.and_eq_true, decide_eq_true_eq] at hregular
    exact hequal (h.enqueue hfresh hregular.1.1 hregular.1.2 hroom)
  | dequeue kind rounds => exact hequal (Agree.dequeue kind rounds hfresh h)
  | ack runId generation => exact hequal (h.ack runId generation)
  | renew runId generation => exact hequal (h.renew runId generation)
  | nack runId generation => exact hequal (h.nack runId generation hroom)
  | cancel runId => exact hequal (h.cancel hfresh runId)
  | lookupInflight runId => exact hequal (h.lookupInflight runId)
  | reclaimStale maxAge maxRetries order =>
    simp only [List.all_eq_true, decide_eq_true_eq] at hcutoff
    have hreclaim := h.reclaimStale hfresh hcutoff maxRetries order hroom
    exact ⟨hreclaim.1, fun hordered => hreclaim.2 (of_decide_eq_true hordered)⟩

/-- The two queues answer every call alike after the same calls. -/
theorem queues_agree (codec : AssignmentCodec) (calls : List (ℤ × QueueOp)) (now : ℤ) (op : QueueOp)
    (hcalls : Trace.Every (serveBoth codec) (fun call st => call.2.comparable call.1 st.1 st.2 ∧
      call.2.regular st.1 ∧ call.2.ordered call.1 st.1) calls ({}, {}))
    (hcomparable : op.comparable now (afterCalls codec calls).1 (afterCalls codec calls).2)
    (hregular : op.regular (afterCalls codec calls).1) :
    QueueReply.Alike ((afterCalls codec calls).1.serve now op).1
      ((afterCalls codec calls).2.serve codec now op).1 := by
  have hagree : Agree codec (afterCalls codec calls).1 (afterCalls codec calls).2 := by
    refine @Trace.invariant _ _ (serveBoth codec) _ (fun st => Agree codec st.1 st.2) ?_ _ _ hcalls
      ⟨.nil, rfl, fun _ => .none rfl rfl, fun runId => by simp, sound_empty⟩
    rintro call st ⟨hcall, hreg, hordered⟩ hst
    exact (hst.serve hcall hreg).2 hordered
  exact (hagree.serve hcomparable hregular).1

/-- A codec that keeps the other members of an assignment as they are. -/
def plainCodec : AssignmentCodec where
  print graphId tenantId fields := ([graphId], [tenantId], [fields])
  read
    | [graphId, tenantId, fields] => (graphId, tenantId, fields)
    | _ => ("", "", "")
  read_print _ _ _ := rfl

/-- Two leases are reclaimed, the older first, and one of them is handed out again. -/
theorem queues_agree_reclaimed : QueueReply.Alike (.job (some ⟨"a", "k", 2, "g", "t", "f"⟩))
      ((afterCalls plainCodec [(0, .enqueue ⟨"a", "k", 1, "g", "t", "f"⟩),
        (0, .enqueue ⟨"b", "k", 1, "g", "t", "f"⟩), (1, .dequeue "k" 1), (2, .dequeue "k" 1),
        (3, .cancel "c"), (9, .reclaimStale 5 3 ⟨List.reverse, List.reverse_perm⟩)]).2.serve
          plainCodec 10 (.dequeue "k" 4)).1 :=
  queues_agree plainCodec [(0, .enqueue ⟨"a", "k", 1, "g", "t", "f"⟩),
    (0, .enqueue ⟨"b", "k", 1, "g", "t", "f"⟩), (1, .dequeue "k" 1), (2, .dequeue "k" 1),
    (3, .cancel "c"), (9, .reclaimStale 5 3 ⟨List.reverse, List.reverse_perm⟩)] 10 (.dequeue "k" 4)
    (by decide +kernel) (by decide +kernel) (by decide +kernel)

/-- A lease under a negative generation, and a poison pill of a run without an id : the in-process
queue reclaims them, the other fails. -/
theorem reclaim_guards_differ :
    (Trace.Every (serveBoth plainCodec) (fun call st => call.2.comparable call.1 st.1 st.2 ∧
        call.2.ordered call.1 st.1) [(0, .enqueue ⟨"r", "k", -1, "", "", ""⟩), (0, .dequeue "k" 1),
          (10, .reclaimStale 5 0 .id)] ({}, {}) ∧
      let st := afterCalls plainCodec [(0, .enqueue ⟨"r", "k", -1, "", "", ""⟩),
        (0, .dequeue "k" 1)]
      (st.1.serve 10 (.reclaimStale 5 0 .id)).1 = .reclaimed 1 [] ∧
        (st.2.serve plainCodec 10 (.reclaimStale 5 0 .id)).1 = .failed) ∧
    (Trace.Every (serveBoth plainCodec) (fun call st => call.2.comparable call.1 st.1 st.2 ∧
        call.2.ordered call.1 st.1) [(0, .enqueue ⟨"", "k", 1, "", "", ""⟩), (0, .dequeue "k" 1),
          (10, .reclaimStale 5 1 .id)] ({}, {}) ∧
      let st := afterCalls plainCodec [(0, .enqueue ⟨"", "k", 1, "", "", ""⟩),
        (0, .dequeue "k" 1)]
      (st.1.serve 10 (.reclaimStale 5 1 .id)).1 = .reclaimed 0 [⟨"", 2, "", ""⟩] ∧
        (st.2.serve plainCodec 10 (.reclaimStale 5 1 .id)).1 = .failed) := by decide +kernel

end Runkite
