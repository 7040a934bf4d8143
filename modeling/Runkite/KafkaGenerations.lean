import Runkite.KafkaQueue
import Runkite.Latest

/-!
# Generations on Kafka

A reclaim writes the job under its next generation to a job topic and then a tombstone to the
state topic. If the second write fails, the stale entry is still there and the next reclaim writes
the same generation once more, so two results of `Dequeue` carry it (`kafka_generation_twice`).
Also `tailState` applies every record again when it comes to it, an old entry over a newer one.

`Kafka.Fits` excludes the two : `Dequeue` receives no message that a later one of its run
supersedes, and `tailState` applies no record that a later one of its run supersedes. Any write may
still fail or lose its acknowledgement (`kafka_generations`).
-/

namespace Runkite

open Kafka

open Log (latest latest_concat latest_map)

/-! ## The view of one run -/

/-- The generation that a message is dequeued with. -/
def KafkaMessage.generation (m : KafkaMessage) : ℤ := Kafka.effective m.job.generation

theorem KafkaMessage.generation_of_job {m m' : KafkaMessage} (h : m'.job = m.job) :
    m'.generation = m.generation := by
  rw [generation, h]
  rfl

/-- What the queue holds of one run : its last message, its entry in memory, its last record in
the state topic and the generations that were dequeued. -/
structure RunView where
  last : Option KafkaMessage
  entry : Option StateEntry
  newest : Option (Option StateEntry)
  dequeued : List ℤ

def Kafka.view (runId : String) (q : Kafka) : RunView where
  last := latest (fun m => m.job.runId = runId) q.topic
  entry := q.state.lookup runId
  newest := (latest (fun record => record.1 = runId) q.log).map Prod.snd
  dequeued := q.dequeued runId

namespace RunView

/-- A write to the state topic. -/
def wrote (v : RunView) (write : Delivery) (x : Option StateEntry) : RunView :=
  match write with
  | .failed => v
  | .lost => { v with newest := some x }
  | .done => { v with newest := some x, entry := x }

/-- What a step can do to the view of a run. -/
inductive Moves : RunView → RunView → Prop
  /-- The first message of the run. -/
  | enqueue {v : RunView} (m : KafkaMessage) (hlast : v.last = none) (hm : m.committed = false) :
    Moves v { v with last := some m }
  /-- The job of the entry under its next generation. -/
  | requeue {v : RunView} (e : KafkaLease) (m : KafkaMessage) (he : v.entry = some (.lease e))
    (hm : m.committed = false) (hgen : m.generation = Kafka.effective (e.generation + 1)) :
    Moves v { v with last := some m }
  /-- The last message is fetched, committed, or to be fetched again. -/
  | mark {v : RunView} (m m' : KafkaMessage) (hlast : v.last = some m) (hjob : m'.job = m.job)
    (hcommitted : m.committed = true → m'.committed = true) : Moves v { v with last := some m' }
  /-- A tombstone or a mark of cancellation. -/
  | forget {v : RunView} (write : Delivery) (x : Option StateEntry)
    (hx : ∀ e, x ≠ some (.lease e)) : Moves v (v.wrote write x)
  | renew {v : RunView} (write : Delivery) (e e' : KafkaLease) (he : v.entry = some (.lease e))
    (hgen : e'.generation = e.generation) : Moves v (v.wrote write (some (.lease e')))
  /-- The last message is recorded. -/
  | record {v : RunView} (write : Delivery) (m : KafkaMessage) (e : KafkaLease)
    (hlast : v.last = some m) (hgen : e.generation = m.generation) :
    Moves v (v.wrote write (some (.lease e)))
  | tail {v : RunView} (x : Option StateEntry) (hx : v.newest = some x) :
    Moves v { v with entry := x }
  /-- The last message was recorded, is committed and returned. -/
  | result {v : RunView} (m m' : KafkaMessage) (e : KafkaLease) (hlast : v.last = some m)
    (hm : m.committed = false) (hjob : m'.job = m.job) (hm' : m'.committed = true)
    (he : v.entry = some (.lease e)) (hnewest : v.newest = some (some (.lease e)))
    (hgen : e.generation = m.generation) :
    Moves v { v with last := some m', dequeued := v.dequeued ++ [m.generation] }

/-- A lease of generation `g` is that of the last message or of the one before it, and nothing
later was dequeued. -/
structure Bounds (v : RunView) (g : ℤ) : Prop where
  last : ∃ m, v.last = some m ∧ (m.generation = g ∨ m.generation = Kafka.effective (g + 1))
  dequeued : ∀ x ∈ v.dequeued, x ≤ g

structure Sound (v : RunView) : Prop where
  /-- What was dequeued is not above the last message, and below it until it is committed. -/
  result : ∀ g ∈ v.dequeued, ∃ m, v.last = some m ∧ g ≤ m.generation ∧
    (m.committed = false → g < m.generation)
  entry : ∀ e, v.entry = some (.lease e) → v.Bounds e.generation
  newest : ∀ e, v.newest = some (some (.lease e)) → v.Bounds e.generation
  ordered : ∀ e e', v.entry = some (.lease e) → v.newest = some (some (.lease e')) →
    e.generation ≤ e'.generation
  increasing : v.dequeued.Pairwise (· < ·)

/-- The last message and every lease have a generation of at least `g`. -/
structure AtLeast (g : ℤ) (v : RunView) : Prop where
  last : ∃ m, v.last = some m ∧ g ≤ m.generation
  entry : ∀ e, v.entry = some (.lease e) → g ≤ e.generation
  newest : ∀ e, v.newest = some (some (.lease e)) → g ≤ e.generation

theorem le_effective (g : ℤ) : g ≤ effective g := by
  unfold effective
  split_ifs <;> omega

theorem lt_effective_add_one (g : ℤ) : g < effective (g + 1) := by
  have := le_effective (g + 1)
  omega

variable {v v' : RunView} {write : Delivery} {x : Option StateEntry} {e : KafkaLease}
  {m m' : KafkaMessage} {g : ℤ}

@[simp] theorem last_wrote : (v.wrote write x).last = v.last := by cases write <;> rfl

@[simp] theorem dequeued_wrote : (v.wrote write x).dequeued = v.dequeued := by cases write <;> rfl

section

variable (v : RunView) (write : Delivery) (x : Option StateEntry)

theorem newest_wrote : (v.wrote write x).newest = v.newest ∨ (v.wrote write x).newest = some x := by
  cases write <;> simp [wrote]

/-- A write that reached the memory is the last record. -/
theorem entry_wrote : (v.wrote write x).entry = v.entry ∨
    (v.wrote write x).entry = x ∧ (v.wrote write x).newest = some x := by
  cases write <;> simp [wrote]

end

/-! ## Invariants of the moves -/

theorem Bounds.wrote (h : v.Bounds g) : (v.wrote write x).Bounds g :=
  ⟨by simpa using h.last, by simpa using h.dequeued⟩

theorem Bounds.tail (h : v.Bounds g) : Bounds { v with entry := x } g := ⟨h.last, h.dequeued⟩

theorem Bounds.last_le (h : v.Bounds g) (hlast : v.last = some m) : g ≤ m.generation := by
  obtain ⟨_, hm', hgen⟩ := h.last
  cases hm'.symm.trans hlast
  rcases hgen with hgen | hgen
  · exact hgen.ge
  · exact hgen ▸ (lt_effective_add_one g).le

/-- The last message is marked. -/
theorem Bounds.mark (h : v.Bounds g) (hlast : v.last = some m) (hjob : m'.job = m.job) :
    Bounds { v with last := some m' } g := by
  obtain ⟨m₀, hm₀, hgen⟩ := h.last
  obtain rfl : m₀ = m := Option.mem_unique hm₀ hlast
  have hsame : m'.generation = m₀.generation := KafkaMessage.generation_of_job hjob
  exact ⟨⟨m', rfl, hsame ▸ hgen⟩, h.dequeued⟩

/-- A later message of the job of the entry, seen from any lease that is not older. -/
theorem Bounds.requeue (he : v.Bounds e.generation) (h : v.Bounds g) (hle : e.generation ≤ g)
    (hgen : m.generation = effective (e.generation + 1)) :
    Bounds { v with last := some m } g := by
  refine ⟨⟨m, rfl, ?_⟩, h.dequeued⟩
  obtain ⟨m₁, hm₁, hm₁gen⟩ := he.last
  obtain ⟨m₂, hm₂, hm₂gen⟩ := h.last
  obtain rfl : m₂ = m₁ := Option.mem_unique hm₂ hm₁
  rcases hle.eq_or_lt with rfl | hlt
  · exact .inr hgen
  · -- The last message is not that of the entry, so it is already the one after it.
    have hlast : g ≤ m₂.generation := h.last_le hm₂
    have hold : m₂.generation = m.generation := by
      rcases hm₁gen with hm₁gen | hm₁gen
      · omega
      · rw [hm₁gen, hgen]
    exact hold ▸ hm₂gen

section

variable (h : v.Sound)
include h

theorem Sound.bounds_last (hlast : v.last = some m) : v.Bounds m.generation := by
  refine ⟨⟨m, hlast, .inl rfl⟩, fun g hg => ?_⟩
  obtain ⟨_, hm', hle, -⟩ := h.result g hg
  cases hm'.symm.trans hlast
  exact hle

/-- A record of a lease that the bounds hold of, not older than the entry. -/
theorem Sound.wrote_lease (he : v.Bounds e.generation)
    (hle : ∀ e', v.entry = some (.lease e') → e'.generation ≤ e.generation) :
    (v.wrote write (some (.lease e))).Sound := by
  cases write with
  | failed => exact h
  | lost =>
    refine ⟨h.result, fun e' he' => (h.entry e' he').wrote, ?_, ?_, h.increasing⟩
    · rintro e' ⟨⟩
      exact he.wrote
    · rintro e' e'' he' ⟨⟩
      exact hle e' he'
  | done =>
    refine ⟨h.result, ?_, ?_, ?_, h.increasing⟩
    · rintro e' ⟨⟩
      exact he.wrote
    · rintro e' ⟨⟩
      exact he.wrote
    · rintro e' e'' ⟨⟩ ⟨⟩
      exact le_rfl

theorem Sound.forget (hx : ∀ e, x ≠ some (.lease e)) : (v.wrote write x).Sound := by
  have hnewest : ∀ e, (v.wrote write x).newest = some (some (.lease e)) →
      v.newest = some (some (.lease e)) := by
    intro e he
    rcases newest_wrote v write x with hold | hnew
    · rw [← hold, he]
    · exact absurd (Option.mem_unique hnew he) (hx e)
  have hentry : ∀ e, (v.wrote write x).entry = some (.lease e) → v.entry = some (.lease e) := by
    intro e he
    rcases entry_wrote v write x with hold | ⟨hnew, -⟩
    · rw [← hold, he]
    · exact absurd (hnew.symm.trans he) (hx e)
  refine ⟨by simpa using h.result, fun e he => (h.entry e (hentry e he)).wrote,
    fun e he => (h.newest e (hnewest e he)).wrote,
    fun e e' he he' => h.ordered e e' (hentry e he) (hnewest e' he'), by simpa using h.increasing⟩

theorem Sound.requeue (he : v.entry = some (.lease e))
    (hgen : m.generation = effective (e.generation + 1)) :
    Sound { v with last := some m } := by
  have hbounds := h.entry e he
  refine ⟨fun g hg => ⟨m, rfl, ?_⟩, fun e' he' => ?_, fun e' he' => ?_, h.ordered, h.increasing⟩
  · have hle := hbounds.dequeued g hg
    have hlt := lt_effective_add_one e.generation
    constructor
    · omega
    · intro
      omega
  · obtain rfl : e = e' := StateEntry.lease.inj (Option.mem_unique he he')
    exact hbounds.requeue hbounds le_rfl hgen
  · exact hbounds.requeue (h.newest e' he') (h.ordered e e' he he') hgen

theorem Sound.enqueue (hlast : v.last = none) : Sound { v with last := some m } := by
  have hnot : ∀ g, ¬v.Bounds g := by
    rintro g ⟨⟨m', hm', -⟩, -⟩
    simp [hlast] at hm'
  refine ⟨fun g hg => ?_, fun e he => absurd (h.entry e he) (hnot _),
    fun e he => absurd (h.newest e he) (hnot _), h.ordered, h.increasing⟩
  obtain ⟨_, hm', -⟩ := h.result g hg
  simp [hlast] at hm'

theorem Sound.mark (hlast : v.last = some m) (hjob : m'.job = m.job)
    (hcommitted : m.committed → m'.committed) : Sound { v with last := some m' } := by
  refine ⟨fun g hg => ⟨m', rfl, ?_⟩, fun e he => (h.entry e he).mark hlast hjob,
    fun e he => (h.newest e he).mark hlast hjob, h.ordered, h.increasing⟩
  obtain ⟨m₀, hm₀, hle, hlt⟩ := h.result g hg
  obtain rfl : m₀ = m := Option.mem_unique hm₀ hlast
  have hsame : m'.generation = m₀.generation := KafkaMessage.generation_of_job hjob
  rw [hsame]
  refine ⟨hle, fun hm' => hlt ?_⟩
  by_contra hm
  simp [hcommitted (by simpa using hm)] at hm'

theorem Sound.result_last (hlast : v.last = some m) (hm : m.committed = false)
    (hjob : m'.job = m.job) (hm' : m'.committed) (he : v.entry = some (.lease e))
    (hnewest : v.newest = some (some (.lease e))) (hgen : e.generation = m.generation) :
    Sound { v with last := some m', dequeued := v.dequeued ++ [m.generation] } := by
  have hsame : m'.generation = m.generation := KafkaMessage.generation_of_job hjob
  have hbelow : ∀ g ∈ v.dequeued, g < m.generation := by
    intro g hg
    obtain ⟨_, hm₀, -, hlt⟩ := h.result g hg
    cases hm₀.symm.trans hlast
    exact hlt hm
  have hle : ∀ g ∈ v.dequeued ++ [m.generation], g ≤ m.generation := by
    intro g hg
    rcases List.mem_append.1 hg with hg | hg
    · exact (hbelow g hg).le
    · exact (List.mem_singleton.1 hg).le
  have hbounds : Bounds { v with last := some m', dequeued := v.dequeued ++ [m.generation] }
      e.generation :=
    ⟨⟨m', rfl, .inl (hsame.trans hgen.symm)⟩, fun g hg => hgen ▸ hle g hg⟩
  refine ⟨fun g hg => ⟨m', rfl, hsame ▸ hle g hg, by simp [hm']⟩, fun e' he' => ?_,
    fun e' he' => ?_, h.ordered, ?_⟩
  · obtain rfl : e = e' := StateEntry.lease.inj (Option.mem_unique he he')
    exact hbounds
  · obtain rfl : e = e' := by simpa using hnewest.symm.trans he'
    exact hbounds
  · rw [List.pairwise_append]
    refine ⟨h.increasing, List.pairwise_singleton _ _, fun g hg g' hg' => ?_⟩
    rw [List.mem_singleton.1 hg']
    exact hbelow g hg

theorem Sound.moves (hmoves : Moves v v') : v'.Sound := by
  cases hmoves with
  | enqueue m hlast hm => exact h.enqueue hlast
  | requeue e m he hm hgen => exact h.requeue he hgen
  | mark m m' hlast hjob hcommitted => exact h.mark hlast hjob hcommitted
  | forget write x hx => exact h.forget hx
  | renew write e e' he hgen =>
    have hbounds : v.Bounds e'.generation := hgen ▸ h.entry e he
    refine h.wrote_lease hbounds fun e₁ he₁ => ?_
    obtain rfl : e = e₁ := StateEntry.lease.inj (Option.mem_unique he he₁)
    exact hgen.ge
  | record write m e hlast hgen =>
    have hbounds : v.Bounds e.generation := hgen ▸ h.bounds_last hlast
    exact h.wrote_lease hbounds fun e₁ he₁ => hgen ▸ (h.entry e₁ he₁).last_le hlast
  | tail x hx =>
    refine ⟨h.result, fun e he => (h.newest e (he ▸ hx)).tail, fun e he => (h.newest e he).tail,
      fun e e' he he' => ?_, h.increasing⟩
    obtain rfl : x = some (.lease e) := he
    obtain rfl : e = e' := by simpa using hx.symm.trans he'
    exact le_rfl
  | result m m' e hlast hm hjob hm' he hnewest hgen =>
    exact h.result_last hlast hm hjob hm' he hnewest hgen

theorem Sound.trans (hmoves : Relation.ReflTransGen Moves v v') : v'.Sound := by
  induction hmoves with
  | refl => exact h
  | tail _ hmove ih => exact ih.moves hmove

theorem Sound.atLeast (he : v.entry = some (.lease e)) : AtLeast e.generation v := by
  have hbounds := h.entry e he
  obtain ⟨m, hm, -⟩ := hbounds.last
  refine ⟨⟨m, hm, hbounds.last_le hm⟩, fun e' he' => ?_, fun e' he' => h.ordered e e' he he'⟩
  obtain rfl : e = e' := StateEntry.lease.inj (Option.mem_unique he he')
  exact le_rfl

end

theorem AtLeast.wrote (h : AtLeast g v) (hx : ∀ e, x = some (.lease e) → g ≤ e.generation) :
    AtLeast g (v.wrote write x) := by
  refine ⟨by simpa using h.last, fun e he => ?_, fun e he => ?_⟩
  · rcases entry_wrote v write x with hold | ⟨hnew, -⟩
    · exact h.entry e (hold ▸ he)
    · exact hx e (hnew ▸ he)
  · rcases newest_wrote v write x with hold | hnew
    · exact h.newest e (hold ▸ he)
    · exact hx e (Option.mem_unique hnew he)

theorem AtLeast.mark (h : AtLeast g v) (hlast : v.last = some m) (hjob : m'.job = m.job) :
    AtLeast g { v with last := some m' } := by
  obtain ⟨m₀, hm₀, hle⟩ := h.last
  obtain rfl : m₀ = m := Option.mem_unique hm₀ hlast
  have hsame : m'.generation = m₀.generation := KafkaMessage.generation_of_job hjob
  exact ⟨⟨m', rfl, hsame ▸ hle⟩, h.entry, h.newest⟩

theorem AtLeast.moves (h : AtLeast g v) (hmoves : Moves v v') : AtLeast g v' := by
  obtain ⟨_, hm₀, hle⟩ := h.last
  cases hmoves with
  | enqueue m hlast hm => simp [hlast] at hm₀
  | requeue e m he hm hgen =>
    have hentry := h.entry e he
    have hlt := lt_effective_add_one e.generation
    exact ⟨⟨m, rfl, by omega⟩, h.entry, h.newest⟩
  | mark m m' hlast hjob hcommitted => exact h.mark hlast hjob
  | forget write x hx => exact h.wrote fun e he => absurd he (hx e)
  | renew write e e' he hgen =>
    refine h.wrote fun e₁ he₁ => ?_
    obtain rfl : e' = e₁ := by simpa using he₁
    exact hgen ▸ h.entry e he
  | record write m e hlast hgen =>
    refine h.wrote fun e₁ he₁ => ?_
    obtain rfl : e = e₁ := by simpa using he₁
    cases hm₀.symm.trans hlast
    exact hgen ▸ hle
  | tail x hx => exact ⟨h.last, fun e he => h.newest e (he ▸ hx), h.newest⟩
  | result m m' e hlast hm hjob hm' he hnewest hgen =>
    exact ⟨(h.mark hlast hjob).last, h.entry, h.newest⟩

theorem AtLeast.trans (h : AtLeast g v) (hmoves : Relation.ReflTransGen Moves v v') :
    AtLeast g v' := by
  induction hmoves with
  | refl => exact h
  | tail _ hmove ih => exact ih.moves hmove

end RunView

/-! ## Steps move the views -/

namespace Kafka

variable {q : Kafka} {write : Delivery} {runId runId' kind : String} {job : Job} {e : KafkaLease}
  {x : Option StateEntry} {hash : String → ℕ} {p : ℕ} {now : ℤ}

open Relation (ReflTransGen)

/-- No message and no record is used that a later one of its run supersedes, and a run is
enqueued once. -/
def Fits (hash : String → ℕ) : KafkaEvent → Kafka → Bool
  | .enqueue job _, q => q.topic.all fun m => m.job.runId ≠ job.runId
  | .dequeue kind p _ _ _, q =>
    match q.nextMessage hash kind p with
    | none => true
    | some (_, m, after) => after.all fun later => later.job.runId ≠ m.job.runId
  | .tail, q =>
    match q.log[q.tailed]? with
    | none => true
    | some record => (q.log.drop (q.tailed + 1)).all fun later => later.1 ≠ record.1
  | _, _ => true

/-- Committed messages were fetched, and a job is kept under the id of its run. -/
structure Sound (q : Kafka) : Prop where
  committed : ∀ m ∈ q.topic, m.committed = true → m.fetched = true
  state : ∀ runId e, q.state.lookup runId = some (.lease e) → e.job.runId = runId
  log : ∀ runId e, (runId, some (.lease e)) ∈ q.log → e.job.runId = runId
  stale : ∀ c ∈ q.reclaims, ∀ s ∈ c.stale, s.2.job.runId = s.1

theorem lookup_applied (state : Hash StateEntry) : (applied state runId x).lookup runId' =
      if runId = runId' then x else state.lookup runId' := by
  split_ifs with h
  · subst h
    cases x <;> simp [applied]
  · cases x <;> simp [applied, AList.lookup_insert_ne (Ne.symm h), AList.lookup_erase_ne (Ne.symm h)]

theorem view_putState_self :
    (q.putState write runId x).view runId = (q.view runId).wrote write x := by
  cases write <;> simp [putState, view, RunView.wrote, latest_concat, lookup_applied, dequeued]

theorem moves_produce (h : job.runId = runId' → ∀ v' : RunView,
      v' = { q.view runId' with last := some { kind := kind, job := job } } →
      RunView.Moves (q.view runId') v') :
    ReflTransGen RunView.Moves (q.view runId') ((q.produce write kind job).view runId') := by
  by_cases hjob : job.runId = runId'
  · by_cases hwrite : write = .failed
    · rw [hwrite]
      exact .refl
    · refine .single (h hjob _ ?_)
      cases write <;> simp_all [produce, view, latest_concat, dequeued]
  · cases write <;> simp [produce, view, latest_concat, dequeued, hjob, ReflTransGen.refl]

theorem moves_putState (h : RunView.Moves (q.view runId) ((q.view runId).wrote write x)) :
    ReflTransGen RunView.Moves (q.view runId') ((q.putState write runId x).view runId') := by
  by_cases hrun : runId = runId'
  · subst hrun
    rw [view_putState_self]
    exact .single h
  · cases write <;>
      simp [putState, view, latest_concat, lookup_applied, dequeued, hrun, ReflTransGen.refl]

variable {f : KafkaMessage → KafkaMessage} {put commitWrite : Delivery} {tombstone : Delivery}

/-- The marks of messages change. -/
theorem moves_mark (hjob : ∀ m, (f m).job = m.job)
    (hcommitted : ∀ m, m.committed → (f m).committed) :
    ReflTransGen RunView.Moves (q.view runId)
      (view runId { q with topic := q.topic.map f }) := by
  have hlast : latest (fun m => m.job.runId = runId) (q.topic.map f) = (q.view runId).last.map f :=
    latest_map (fun m => by rw [hjob]) _
  cases hm : (q.view runId).last with
  | none =>
    have hsame : view runId { q with topic := q.topic.map f } = q.view runId := by
      rw [hm] at hlast
      rw [view, hlast]
      exact congrArg (fun last => { q.view runId with last := last }) hm.symm
    rw [hsame]
  | some m =>
    rw [hm] at hlast
    have hview : view runId { q with topic := q.topic.map f } =
        { q.view runId with last := some (f m) } := by
      rw [view, hlast]
      rfl
    rw [hview]
    exact .single (.mark m (f m) hm (hjob m) (hcommitted m))

theorem moves_commit :
    ReflTransGen RunView.Moves (q.view runId) ((q.commit hash write kind p).view runId) := by
  cases write with
  | failed => exact .refl
  | done | lost => refine moves_mark (fun m => ?_) fun m hm => ?_ <;> split_ifs <;> simp [*]

theorem moves_requeue {write tombstone : Delivery} (hkey : e.job.runId = runId)
    {cur : KafkaLease} (hcur : q.state.lookup runId = some (.lease cur))
    (hgen : cur.generation = e.generation) : ReflTransGen RunView.Moves (q.view runId')
      ((q.requeue write tombstone runId e).view runId') := by
  have hproduce : ReflTransGen RunView.Moves (q.view runId')
      ((q.produce write e.runnerKind { e.job with generation := e.generation + 1 }).view runId') := by
    refine moves_produce fun hrun v' hv' => ?_
    obtain rfl : runId = runId' := hkey.symm.trans hrun
    rw [hv']
    exact .requeue cur _ hcur rfl (by rw [hgen]; rfl)
  unfold requeue
  cases write with
  | failed | lost => exact hproduce
  | done => exact hproduce.trans (moves_putState (.forget tombstone none (by simp)))

theorem of_splitFirst {α : Type} {p : α → Bool} : ∀ {l before after : List α} {a : α},
    splitFirst p l = some (before, a, after) → l = before ++ a :: after ∧ p a
  | [], _, _, _, h => by simp [splitFirst] at h
  | b :: l, before, after, a, h => by
    rw [splitFirst] at h
    split_ifs at h with hb
    · obtain ⟨rfl, rfl, rfl⟩ : [] = before ∧ b = a ∧ l = after := by simpa using h
      exact ⟨rfl, hb⟩
    · obtain ⟨⟨before', a', after'⟩, hrest, heq⟩ := Option.map_eq_some_iff.1 h
      obtain ⟨rfl, rfl, rfl⟩ : b :: before' = before ∧ a' = a ∧ after' = after := by simpa using heq
      obtain ⟨rfl, ha⟩ := of_splitFirst hrest
      exact ⟨rfl, ha⟩

variable {before after : List KafkaMessage} {m : KafkaMessage}

section

variable (htopic : q.topic = before ++ m :: after)
  (hlater : ∀ later ∈ after, later.job.runId ≠ m.job.runId)
include htopic hlater

theorem last_of_topic : (q.view m.job.runId).last = some m := by
  rw [view, htopic]
  exact Log.latest_append_cons (by simp) fun later h => by simp [hlater later h]

theorem moves_fetch :
    ReflTransGen RunView.Moves (q.view runId) ((q.fetch before m after).view runId) := by
  by_cases hrun : m.job.runId = runId
  · subst hrun
    have hlast := last_of_topic htopic hlater
    have hlast' : ((q.fetch before m after).view m.job.runId).last =
        some { m with fetched := true } :=
      last_of_topic (m := { m with fetched := true }) rfl hlater
    have hview : (q.fetch before m after).view m.job.runId =
        { q.view m.job.runId with last := some { m with fetched := true } } := by
      rw [← hlast']
      rfl
    rw [hview]
    exact .single (.mark m _ hlast rfl id)
  · have hsame : (q.fetch before m after).view runId = q.view runId := by
      unfold view fetch
      rw [htopic, Log.latest_cons_of_not (by simp [hrun]), Log.latest_cons_of_not (by simp [hrun])]
      rfl
    rw [hsame]

variable (hm : m.committed = false) (hfetched : m.fetched = true)
  (hpart : inPartition hash kind p m = true)
include hm hfetched hpart

theorem moves_result (hentry : (q.view m.job.runId).entry = some (.lease e))
    (hnewest : (q.view m.job.runId).newest = some (some (.lease e)))
    (hgen : e.generation = m.generation) : ReflTransGen RunView.Moves (q.view runId)
      (view runId { q.commit hash .done kind p with
        results := q.results ++ [{ m.job with generation := m.generation }] }) := by
  by_cases hrun : m.job.runId = runId
  · subst hrun
    have hlast := last_of_topic htopic hlater
    have hlast' : ((q.commit hash .done kind p).view m.job.runId).last =
        some { m with committed := true } := by
      have hmap := latest_map (p := fun m' => m'.job.runId = m.job.runId)
        (f := fun m => if inPartition hash kind p m && m.fetched then { m with committed := true }
          else m) (fun m' => by split_ifs <;> rfl) q.topic
      refine hmap.trans ?_
      have hq : latest (fun m' => decide (m'.job.runId = m.job.runId)) q.topic = some m := hlast
      rw [hq]
      simp [hpart, hfetched]
    have hview : view m.job.runId { q.commit hash .done kind p with
          results := q.results ++ [{ m.job with generation := m.generation }] } =
        { q.view m.job.runId with
          last := some { m with committed := true }
          dequeued := (q.view m.job.runId).dequeued ++ [m.generation] } := by
      rw [← hlast']
      simp [view, dequeued, commit]
    rw [hview]
    exact .single (.result m _ e hlast hm rfl rfl hentry hnewest hgen)
  · have hsame : view runId { q.commit hash .done kind p with
          results := q.results ++ [{ m.job with generation := m.generation }] } =
        (q.commit hash .done kind p).view runId := by simp [view, dequeued, commit, hrun]
    rw [hsame]
    exact moves_commit

theorem moves_receive :
    ReflTransGen RunView.Moves (q.view runId)
      ((q.receive hash m kind p now put commitWrite).view runId) := by
  have hlast := last_of_topic htopic hlater
  unfold receive
  split
  · exact moves_commit
  have hput : ReflTransGen RunView.Moves (q.view runId) ((q.putState put m.job.runId
      (some (.lease ⟨kind, effective m.job.generation, now, m.job⟩))).view runId) :=
    moves_putState (.record put m _ hlast rfl)
  split
  · exact hput.trans (moves_result htopic hlater hm hfetched hpart
      (by rw [view_putState_self]; rfl) (by rw [view_putState_self]; rfl) rfl)
  · exact hput.trans moves_commit
  · exact hput

end

theorem moves_dequeue (hq : q.Sound)
    (hfits : Fits hash (.dequeue kind p now put commitWrite) q) :
    ReflTransGen RunView.Moves (q.view runId)
      ((q.dequeue hash kind p now put commitWrite).view runId) := by
  unfold dequeue
  unfold Fits at hfits
  rcases hnext : q.nextMessage hash kind p with _ | ⟨before, m, after⟩
  · exact .refl
  obtain ⟨htopic, hm⟩ := of_splitFirst hnext
  obtain ⟨hpart, hunfetched⟩ : inPartition hash kind p m ∧ m.fetched = false := by simpa using hm
  have hcommitted : m.committed = false := by
    by_contra hcommitted
    have hmem : m ∈ q.topic := htopic ▸ by simp
    simp [hq.committed m hmem (by simpa using hcommitted)] at hunfetched
  have hlater : ∀ later ∈ after, later.job.runId ≠ m.job.runId := by simpa [hnext] using hfits
  have hreceive : ReflTransGen RunView.Moves ((q.fetch before m after).view runId)
      (((q.fetch before m after).receive hash { m with fetched := true } kind p now put
        commitWrite).view runId) :=
    moves_receive rfl hlater hcommitted rfl hpart
  exact (moves_fetch htopic hlater).trans hreceive

theorem of_fenced {generation : ℤ} (h : q.fenced runId generation = some e) :
    q.state.lookup runId = some (.lease e) ∧ e.generation = generation := by
  unfold fenced at h
  split at h
  · rename_i e' he'
    split_ifs at h with hgen
    obtain rfl : e' = e := by simpa using h
    exact ⟨he', hgen⟩
  · simp at h

theorem of_stillStale {cutoff : ℤ} (h : q.stillStale cutoff runId e) :
    ∃ cur, q.state.lookup runId = some (.lease cur) ∧ cur.generation = e.generation := by
  unfold stillStale at h
  split at h
  · rename_i cur hcur
    exact ⟨cur, hcur, by simpa using (Bool.and_eq_true_iff.1 h).1⟩
  · simp at h

theorem moves_enqueue (hfits : Fits hash (.enqueue job write) q) :
    ReflTransGen RunView.Moves (q.view runId) ((q.enqueue write job).view runId) := by
  unfold enqueue
  split
  · exact .refl
  · refine moves_produce fun hrun v' hv' => ?_
    have hlast : (q.view runId).last = none := by
      refine Log.latest_eq_none_iff.2 fun m hm => ?_
      have hne : m.job.runId ≠ job.runId := by
        have hall : ∀ m ∈ q.topic, m.job.runId ≠ job.runId := by simpa [Fits] using hfits
        exact hall m hm
      simpa [hrun] using hne
    rw [hv']
    exact .enqueue _ hlast rfl

theorem moves_reclaimOne {cutoff maxRetries : ℤ}
    (hkey : e.job.runId = runId) : ReflTransGen RunView.Moves (q.view runId')
      ((q.reclaimOne write tombstone cutoff maxRetries runId e).view runId') := by
  unfold reclaimOne
  split_ifs with hstale hretries
  · exact .refl
  · exact .refl
  · obtain ⟨_, hcur, hgen⟩ := of_stillStale (by simpa using hstale)
    exact moves_requeue hkey hcur hgen

theorem moves_reclaimNext (hq : q.Sound) {i : ℕ} :
    ReflTransGen RunView.Moves (q.view runId) ((q.reclaimNext i write tombstone).view runId) := by
  unfold reclaimNext
  split
  · rename_i cutoff maxRetries runId' e stale hcall
    have hmem := List.mem_of_getElem? hcall
    exact moves_reclaimOne (hq.stale _ hmem (runId', e) (by simp))
  · exact .refl

theorem moves_tail (hfits : Fits hash .tail q) :
    ReflTransGen RunView.Moves (q.view runId) (q.tail.view runId) := by
  unfold tail
  unfold Fits at hfits
  rcases hrecord : q.log[q.tailed]? with _ | ⟨runId', x⟩
  · exact .refl
  have hlater : ∀ later ∈ q.log.drop (q.tailed + 1), later.1 ≠ runId' := by
    intro later hmem
    simp only [hrecord, List.all_eq_true, decide_eq_true_eq] at hfits
    exact hfits later hmem
  by_cases hrun : runId' = runId
  · subst hrun
    have hlatest : latest (fun record => record.1 = runId') q.log = some (runId', x) :=
      Log.latest_of_getElem? hrecord (by simp) fun later hmem => by simp [hlater later hmem]
    have hnewest : (q.view runId').newest = some x := by simp [view, hlatest]
    have hview : view runId' { q with
        state := applied q.state runId' x, tailed := q.tailed + 1 } =
        { q.view runId' with entry := x } := by simp [view, lookup_applied, dequeued]
    rw [hview]
    exact .single (.tail x hnewest)
  · have hsame : view runId { q with
        state := applied q.state runId' x, tailed := q.tailed + 1 } = q.view runId := by
      simp [view, lookup_applied, dequeued, hrun]
    rw [hsame]

section

variable (hq : q.Sound)
include hq

/-- What a step does to the view of a run is a sequence of moves. -/
theorem step_moves {ev : KafkaEvent} (hfits : Fits hash ev q)
    (runId : String) : ReflTransGen RunView.Moves (q.view runId) ((step hash ev q).view runId) := by
  cases ev with
  | enqueue => exact moves_enqueue hfits
  | dequeue => exact moves_dequeue hq hfits
  | ack runId' generation write =>
    simp only [step, ack]
    cases q.fenced runId' generation with
    | none => exact .refl
    | some => exact moves_putState (.forget write none (by simp))
  | renew runId' generation now write =>
    simp only [step, renew]
    cases he : q.fenced runId' generation with
    | none => exact .refl
    | some e => exact moves_putState (.renew write e _ (of_fenced he).1 rfl)
  | nack runId' generation write tombstone =>
    simp only [step, nack]
    cases he : q.fenced runId' generation with
    | none => exact .refl
    | some e =>
      have hcur := (of_fenced he).1
      exact moves_requeue (hq.state runId' e hcur) hcur rfl
  | cancel runId' write => exact moves_putState (.forget write (some .canceled) (by simp))
  | reclaimStale => exact .refl
  | reclaimNext => exact moves_reclaimNext hq
  | tail => exact moves_tail hfits
  | rejoin => refine moves_mark (fun m => ?_) fun m hm => ?_ <;> split_ifs <;> simp [*]

/-! ## Jobs are kept under the id of their run -/

theorem Sound.produce : (q.produce write kind job).Sound := by
  cases write with
  | failed => exact hq
  | done | lost =>
    refine ⟨fun m hm hcommitted => ?_, hq.state, hq.log, hq.stale⟩
    rcases List.mem_append.1 hm with hm | hm
    · exact hq.committed m hm hcommitted
    · rw [List.mem_singleton.1 hm] at hcommitted
      exact absurd hcommitted (by simp)

theorem Sound.putState (hx : ∀ e, x = some (.lease e) → e.job.runId = runId) :
    (q.putState write runId x).Sound := by
  have hlog : ∀ runId' e, (runId', some (.lease e)) ∈ q.log ++ [(runId, x)] →
      e.job.runId = runId' := by
    intro runId' e hmem
    rcases List.mem_append.1 hmem with hmem | hmem
    · exact hq.log runId' e hmem
    · obtain ⟨rfl, rfl⟩ : runId' = runId ∧ some (.lease e) = x := by simpa using hmem
      exact hx e rfl
  have hstate : ∀ runId' e, (applied q.state runId x).lookup runId' = some (.lease e) →
      e.job.runId = runId' := by
    intro runId' e he
    rw [lookup_applied] at he
    split_ifs at he with hrun
    · exact hrun ▸ hx e he
    · exact hq.state runId' e he
  cases write with
  | failed => exact hq
  | lost => exact ⟨hq.committed, hq.state, hlog, hq.stale⟩
  | done => exact ⟨hq.committed, hstate, hlog, hq.stale⟩

/-- The marks of messages change. -/
theorem Sound.mark (hf : ∀ m, (m.committed → m.fetched) →
      (f m).committed → (f m).fetched) :
    Sound { q with topic := q.topic.map f } := by
  refine ⟨fun m hm => ?_, hq.state, hq.log, hq.stale⟩
  obtain ⟨m₀, hm₀, rfl⟩ := List.mem_map.1 hm
  exact hf m₀ (hq.committed m₀ hm₀)

theorem Sound.commit : (q.commit hash write kind p).Sound := by
  cases write with
  | failed => exact hq
  | done | lost =>
    refine hq.mark fun m hm => ?_
    split_ifs with h
    · exact fun _ => (Bool.and_eq_true_iff.1 h).2
    · exact hm

theorem Sound.rejoin : (q.rejoin hash kind p).Sound := by
  refine hq.mark fun m hm => ?_
  split_ifs
  · exact id
  · exact hm

theorem Sound.fetch {before after : List KafkaMessage} {m : KafkaMessage}
    (htopic : q.topic = before ++ m :: after) : (q.fetch before m after).Sound := by
  refine ⟨fun m' hm' hcommitted => ?_, hq.state, hq.log, hq.stale⟩
  rcases List.mem_append.1 hm' with hm' | hm'
  · exact hq.committed m' (htopic ▸ List.mem_append_left _ hm') hcommitted
  · rcases List.mem_cons.1 hm' with rfl | hm'
    · rfl
    · exact hq.committed m' (htopic ▸ List.mem_append_right _ (List.mem_cons_of_mem m hm'))
        hcommitted

theorem Sound.results {results : List Job} : Sound { q with results := results } :=
  ⟨hq.committed, hq.state, hq.log, hq.stale⟩

theorem Sound.receive {m : KafkaMessage} : (q.receive hash m kind p now put commitWrite).Sound := by
  unfold Kafka.receive
  split
  · exact hq.commit
  have hput : (q.putState put m.job.runId
      (some (.lease ⟨kind, effective m.job.generation, now, m.job⟩))).Sound :=
    hq.putState (by rintro e ⟨⟩; rfl)
  split
  · exact hput.commit.results
  · exact hput.commit
  · exact hput

theorem Sound.requeue : (q.requeue write tombstone runId e).Sound := by
  unfold Kafka.requeue
  cases write with
  | failed | lost => exact hq.produce
  | done => exact hq.produce.putState (by simp)

theorem Sound.reclaimStale {cutoff maxRetries : ℤ} {order : MapOrder} : Sound { q with
      reclaims := q.reclaims ++ [⟨cutoff, maxRetries, q.staleLeases cutoff order⟩] } := by
  refine ⟨hq.committed, hq.state, hq.log, fun c hc s hs => ?_⟩
  rcases List.mem_append.1 hc with hc | hc
  · exact hq.stale c hc s hs
  · rw [List.mem_singleton.1 hc] at hs
    obtain ⟨runId, -, hstale⟩ := List.mem_filterMap.1 hs
    split at hstale
    · rename_i e he
      split_ifs at hstale
      obtain rfl : (runId, e) = s := by simpa using hstale
      exact hq.state runId e he
    · simp at hstale

theorem Sound.reclaimNext {i : ℕ} : (q.reclaimNext i write tombstone).Sound := by
  unfold Kafka.reclaimNext
  split
  · rename_i cutoff maxRetries runId e stale hcall
    have hone : (q.reclaimOne write tombstone cutoff maxRetries runId e).Sound := by
      unfold reclaimOne
      split_ifs
      · exact hq
      · exact hq
      · exact hq.requeue
    refine ⟨hone.committed, hone.state, hone.log, fun c hc s hs => ?_⟩
    rcases List.mem_or_eq_of_mem_set hc with hc | rfl
    · exact hq.stale c hc s hs
    · exact hq.stale _ (List.mem_of_getElem? hcall) s (List.mem_cons_of_mem _ hs)
  · exact hq

theorem Sound.tail : q.tail.Sound := by
  unfold Kafka.tail
  rcases hrecord : q.log[q.tailed]? with _ | ⟨runId, x⟩
  · exact hq
  · refine ⟨hq.committed, fun runId' e he => ?_, hq.log, hq.stale⟩
    rw [lookup_applied] at he
    split_ifs at he with hrun
    · obtain rfl : x = some (.lease e) := he
      exact hrun ▸ hq.log runId e (List.mem_of_getElem? hrecord)
    · exact hq.state runId' e he

theorem Sound.step (ev : KafkaEvent) : (Kafka.step hash ev q).Sound := by
  cases ev with
  | enqueue =>
    simp only [Kafka.step, enqueue]
    split
    · exact hq
    · exact hq.produce
  | dequeue kind p now put commit =>
    simp only [Kafka.step, dequeue]
    split
    · exact hq
    · rename_i hnext
      exact (hq.fetch (of_splitFirst hnext).1).receive
  | ack =>
    simp only [Kafka.step, ack]
    split
    · exact hq
    · exact hq.putState (by simp)
  | renew runId generation now write =>
    simp only [Kafka.step, renew]
    split
    · exact hq
    · rename_i e he
      refine hq.putState ?_
      rintro e' ⟨⟩
      exact hq.state runId e (of_fenced he).1
  | nack =>
    simp only [Kafka.step, nack]
    split
    · exact hq
    · exact hq.requeue
  | cancel => exact hq.putState (by simp)
  | reclaimStale => exact hq.reclaimStale
  | reclaimNext => exact hq.reclaimNext
  | tail => exact hq.tail
  | rejoin => exact hq.rejoin

end

/-! ## Sequences of calls -/

/-- The jobs are kept under their ids and the views of all runs are sound. -/
structure Consistent (q : Kafka) : Prop where
  sound : q.Sound
  view : ∀ runId, (q.view runId).Sound

theorem consistent_empty : Consistent {} where
  sound := ⟨by simp, by simp, by simp, by simp⟩
  view runId := ⟨by simp [view, dequeued], by simp [view], by simp [view], by simp [view],
    by simp [view, dequeued]⟩

theorem Consistent.step (hq : q.Consistent) {ev : KafkaEvent} (hfits : Fits hash ev q) :
    (step hash ev q).Consistent where
  sound := hq.sound.step ev
  view runId := (hq.view runId).trans (step_moves hq.sound hfits runId)

theorem of_tracked {g : ℤ} (h : q.tracked runId = some g) :
    ∃ e, (q.view runId).entry = some (.lease e) ∧ e.generation = g := by
  unfold tracked at h
  split at h
  · rename_i e he
    exact ⟨e, he, by simpa using h⟩
  · simp at h

end Kafka

/-- In every sequence of calls in which no message and no record is used that a later one of its
run supersedes, the generations that `Dequeue` returns for a run increase, and the tracked
generation of a run never decreases. -/
theorem kafka_generations (hash : String → ℕ) (before after : List KafkaEvent)
    (h : Trace.Every (Kafka.step hash) (fun ev q => Kafka.Fits hash ev q = true) (before ++ after)
      {}) (runId : String) :
    ((Trace.run (Kafka.step hash) (before ++ after) {}).dequeued runId).Pairwise (· < ·) ∧
      ∀ g g', (Trace.run (Kafka.step hash) before {}).tracked runId = some g →
        (Trace.run (Kafka.step hash) (before ++ after) {}).tracked runId = some g' → g ≤ g' := by
  have hstep : ∀ ev q, Kafka.Fits hash ev q → q.Consistent →
      (step hash ev q).Consistent := fun ev q hfits hq => hq.step hfits
  refine ⟨((Trace.invariant hstep h consistent_empty).view runId).increasing, ?_⟩
  intro g g' hg hg'
  obtain ⟨hbefore, hafter⟩ := Trace.every_append.1 h
  have hmid := Trace.invariant hstep hbefore consistent_empty
  obtain ⟨e, he, rfl⟩ := of_tracked hg
  -- From here on no generation of the run falls below the tracked one.
  have hkept : ∀ ev q, Kafka.Fits hash ev q →
      q.Consistent ∧ RunView.AtLeast e.generation (q.view runId) →
      (step hash ev q).Consistent ∧
        RunView.AtLeast e.generation ((step hash ev q).view runId) :=
    fun ev q hfits hq => ⟨hq.1.step hfits, hq.2.trans (step_moves hq.1.sound hfits runId)⟩
  have hend := (Trace.invariant hkept hafter ⟨hmid, (hmid.view runId).atLeast he⟩).2
  rw [Trace.run_append] at hg'
  obtain ⟨e', he', rfl⟩ := of_tracked hg'
  exact hend.entry e' he'

/-- The calls of a worker that is reclaimed after its first lease. -/
def reclaimedCalls (tombstone : Delivery) : List KafkaEvent :=
  [.enqueue ⟨"run", "kind", 0, "graph", "tenant", ""⟩ .done, .dequeue "kind" 0 0 .done .done,
    .reclaimStale 0 0 .id, .reclaimNext 0 .done tombstone]

/-- The acknowledgement of the tombstone is lost, and the job is dequeued again all the same. -/
theorem kafka_generations_lost : (Trace.run (Kafka.step fun _ => 0)
        (reclaimedCalls .lost ++ [.dequeue "kind" 0 5 .done .done]) {}).dequeued "run" = [1, 2] ∧
      ((Trace.run (Kafka.step fun _ => 0)
        (reclaimedCalls .lost ++ [.dequeue "kind" 0 5 .done .done]) {}).dequeued "run").Pairwise
          (· < ·) :=
  ⟨by decide +kernel, (kafka_generations (fun _ => 0) (reclaimedCalls .lost)
    [.dequeue "kind" 0 5 .done .done] (by decide +kernel) "run").1⟩

/-- The tombstone of a reclaim fails, the entry is reclaimed once more, and `Dequeue` returns the
generation twice. And an old record that `tailState` comes to lowers the tracked generation. -/
theorem kafka_generation_twice : (Trace.run (Kafka.step fun _ => 0) (reclaimedCalls .failed ++
      [.reclaimStale 0 0 .id, .reclaimNext 1 .done .done, .dequeue "kind" 0 5 .done .done,
        .dequeue "kind" 0 6 .done .done]) {}).dequeued "run" = [1, 2, 2] ∧
    (Trace.run (Kafka.step fun _ => 0)
      (reclaimedCalls .done ++ [.dequeue "kind" 0 5 .done .done]) {}).tracked "run" = some 2 ∧
    (Trace.run (Kafka.step fun _ => 0)
      (reclaimedCalls .done ++ [.dequeue "kind" 0 5 .done .done, .tail]) {}).tracked "run" =
        some 1 := by decide +kernel

end Runkite
