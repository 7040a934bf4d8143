import Runkite.RedisQueue
import Runkite.Trace

/-!
# No job is lost or duplicated

`Redis.copies` lists the copies of a run across the ready lists, the pending list and the
inflight data. Every script, and every turn of the loops inside two of them, is a `Moves` :
it makes no new copy of a run, derives each copy it leaves from one that was there without
lowering its generation, and loses none of a run that has a single copy and no cancel
marker. `Moves` composes, which carries the loops; only `enqueue` adds a copy, and only an
accepted `ack` and `cancel` take one away.

A replica issues any of the steps at any time, and one that crashes issues no more of them.
-/

namespace Runkite

open Trace

namespace Redis

/-! ## Copies and leases -/

/-- The assignment is one of the run. -/
def isOf (runId : String) (p : Payload) : Bool := p.runId = some runId

/-- The assignments that are ready or between a list and its lease. -/
def queued (s : Redis) : List Payload := s.ready.map Prod.snd ++ s.pending

/-- The copies of a run that the queue holds. -/
def copies (s : Redis) (runId : String) : List Payload :=
  s.queued.filter (isOf runId) ++ (s.data.lookup runId).toList

/-- Every lease is recorded as a whole : under the run's own id, with the generation of its
payload and an entry of the time index. -/
def Tracked (s : Redis) : Prop :=
  ∀ runId p, s.data.lookup runId = some p →
    p.runId = some runId ∧ s.gen.lookup runId = some p.generation ∧ runId ∈ s.zset

/-- What one atomic piece of the queue's work does to the copies of a run. -/
structure Moves (runId : String) (s s' : Redis) : Prop where
  tracked : s'.Tracked
  unmarked : s.canceled.lookup runId = none → s'.canceled.lookup runId = none
  length_le : (s'.copies runId).length ≤ (s.copies runId).length
  derived : ∀ p' ∈ s'.copies runId, ∃ p ∈ s.copies runId, p.generation ≤ p'.generation
  kept : s.canceled.lookup runId = none → (s.copies runId).length ≤ 1 →
    (s.copies runId).length ≤ (s'.copies runId).length

namespace Moves

variable {runId : String} {s s' s'' : Redis}

theorem trans (h : Moves runId s s') (h' : Moves runId s' s'') : Moves runId s s'' where
  tracked := h'.tracked
  unmarked hu := h'.unmarked (h.unmarked hu)
  length_le := h'.length_le.trans h.length_le
  derived p'' hp'' := by
    obtain ⟨p', hp', hle'⟩ := h'.derived p'' hp''
    obtain ⟨p, hp, hle⟩ := h.derived p' hp'
    exact ⟨p, hp, hle.trans hle'⟩
  kept hu hone := (h.kept hu hone).trans (h'.kept (h.unmarked hu) (h.length_le.trans hone))

section

variable (htracked : s'.Tracked)
  (hunmarked : s.canceled.lookup runId = none → s'.canceled.lookup runId = none)
include htracked hunmarked

/-- Work that may drop copies, but not the only copy of an unmarked run. -/
theorem of_subperm (hsub : (s'.copies runId).Subperm (s.copies runId))
    (hkept : s.canceled.lookup runId = none → (s.copies runId).length ≤ 1 →
      (s.copies runId).length ≤ (s'.copies runId).length) : Moves runId s s' where
  tracked := htracked
  unmarked := hunmarked
  length_le := hsub.length_le
  derived p hp := ⟨p, hsub.subset hp, le_rfl⟩
  kept := hkept

/-- Work that only rearranges the copies. -/
theorem of_perm (hperm : (s'.copies runId).Perm (s.copies runId)) : Moves runId s s' :=
  of_subperm htracked hunmarked hperm.subperm fun _ _ => hperm.length_eq.ge

end

theorem refl (h : s.Tracked) : Moves runId s s := of_perm h id (.refl _)

end Moves

/-! ## The writes the scripts share -/

variable {runId k : String} {s s' : Redis} {p : Payload} {now score : ℤ}

theorem Tracked.congr (h : s.Tracked) (hd : s'.data = s.data) (hg : s'.gen = s.gen)
    (hz : s'.zset = s.zset) : s'.Tracked := by
  intro j q hq
  rw [hd] at hq
  rw [hg, hz]
  exact h j q hq

theorem Tracked.track (h : s.Tracked) (hp : p.runId = some k) : (s.track k p score).Tracked := by
  intro j q hq
  by_cases hj : j = k
  · subst hj
    obtain rfl : p = q := by simpa [Redis.track] using hq
    exact ⟨hp, by simp [Redis.track], by simp [Redis.track]⟩
  · have hq' : s.data.lookup j = some q := by
      simpa [Redis.track, AList.lookup_insert_ne hj] using hq
    obtain ⟨hid, hgen, hz⟩ := h j q hq'
    exact ⟨hid, by simpa [Redis.track, AList.lookup_insert_ne hj] using hgen, by
      simp [Redis.track, hz]⟩

/-- Without a lease of `k`, what the time index and the generation key say of it is free. -/
theorem Tracked.erase (h : s.Tracked) (hk : s'.data = s.data.erase k)
    (hg : ∀ j, j ≠ k → s'.gen.lookup j = s.gen.lookup j) (hz : s'.zset = s.zset.erase k) :
    s'.Tracked := by
  intro j q hq
  rw [hk] at hq
  by_cases hj : j = k
  · subst hj
    simp at hq
  · rw [AList.lookup_erase_ne hj] at hq
    obtain ⟨hid, hgen, hmem⟩ := h j q hq
    exact ⟨hid, (hg j hj).trans hgen, by simp [hz, hj, hmem]⟩

theorem Tracked.untrack (h : s.Tracked) : (s.untrack k).Tracked :=
  h.erase rfl (fun _ hj => AList.lookup_erase_ne hj) rfl

theorem copies_congr (hq : s'.queued = s.queued)
    (hd : s'.data.lookup runId = s.data.lookup runId) : s'.copies runId = s.copies runId := by
  rw [copies, hq, hd, copies]

theorem copies_track_self : (s.track runId p score).copies runId =
    s.queued.filter (isOf runId) ++ [p] := by simp [copies, track, queued]

theorem copies_track_of_ne (h : k ≠ runId) : (s.track k p score).copies runId = s.copies runId :=
  copies_congr rfl (AList.lookup_insert_ne h.symm)

theorem copies_untrack_self : (s.untrack runId).copies runId = s.queued.filter (isOf runId) := by
  simp [copies, untrack, queued]

theorem copies_of_lookup (h : s.data.lookup runId = some p) :
    s.copies runId = s.queued.filter (isOf runId) ++ [p] := by simp [copies, h]

theorem isOf_of_ne (hp : p.runId = some k) (h : k ≠ runId) : isOf runId p = false := by
  simp [isOf, hp, h]

theorem isOf_self (hp : p.runId = some runId) : isOf runId p := by simp [isOf, hp]

theorem lookup_erase_eq_none {m : Hash ℤ} (k : String) (h : m.lookup runId = none) :
    (m.erase k).lookup runId = none := by
  by_cases hk : runId = k
  · rw [hk, AList.lookup_erase]
  · rw [AList.lookup_erase_ne hk, h]

theorem checkCanceled_spec (s : Redis) (k : String) (now : ℤ) :
    ∃ canceled, (s.checkCanceled k now).2 = { s with canceled := canceled } ∧
      (∀ j, s.canceled.lookup j = none → canceled.lookup j = none) ∧
      ((s.checkCanceled k now).1 → canceled.lookup k ≠ none) := by
  unfold checkCanceled
  cases hmark : s.canceled.lookup k with
  | none => exact ⟨s.canceled, rfl, fun _ h => h, by simp⟩
  | some score =>
    by_cases hexp : canceledMemberTTL < now - score
    · exact ⟨s.canceled.erase k, by simp [hexp], fun _ => lookup_erase_eq_none k, by simp [hexp]⟩
    · exact ⟨s.canceled, by simp [hexp], fun _ h => h, by simp [hmark]⟩

theorem moves_checkCanceled (h : s.Tracked) : Moves runId s (s.checkCanceled k now).2 := by
  obtain ⟨_, hs, hmark, -⟩ := checkCanceled_spec s k now
  rw [hs]
  exact .of_perm (h.congr rfl rfl rfl) (hmark runId) (.refl _)

/-- Ending the lease of a run with a marker. -/
theorem moves_untrack (h : s.Tracked) (hk : k = runId → s.canceled.lookup k ≠ none) :
    Moves runId s (s.untrack k) := by
  by_cases hid : k = runId
  · subst hid
    refine .of_subperm h.untrack id ?_ fun hnone => absurd hnone (hk rfl)
    rw [copies_untrack_self, copies]
    exact (List.sublist_append_left _ _).subperm
  · exact .of_perm h.untrack id (.of_eq (copies_congr rfl (AList.lookup_erase_ne (Ne.symm hid))))

theorem lookup_trimCanceled (s : Redis) (cutoff : ℤ) (h : s.canceled.lookup runId = none) :
    (s.trimCanceled cutoff).canceled.lookup runId = none := by
  have hkeys : ∀ e ∈ s.canceled.entries.filter fun e => cutoff < e.2, e.1 ≠ runId := by
    intro e he heq
    have hmem : runId ∈ s.canceled := by
      rw [← heq]
      exact List.mem_keys_of_mem (List.mem_of_mem_filter he)
    exact AList.lookup_eq_none.1 h hmem
  unfold trimCanceled
  generalize (s.canceled.entries.filter fun e => cutoff < e.2) = l at hkeys
  induction l with
  | nil => rfl
  | cons e l ih =>
    have hne : runId ≠ e.1 := (hkeys e (by simp)).symm
    simp only [List.foldr_cons, AList.lookup_insert_ne hne]
    exact ih fun e' he' => hkeys e' (by simp [he'])

theorem moves_trimCanceled (h : s.Tracked) (cutoff : ℤ) : Moves runId s (s.trimCanceled cutoff) :=
  .of_perm (h.congr rfl rfl rfl) (lookup_trimCanceled s cutoff) (.refl _)

/-! ## The scripts -/

/-- Popping from the right end takes one entry out. -/
theorem popRight_perm (kind : String) : ∀ {es es' : List (String × Payload)} {p : Payload},
    popRight kind es = some (p, es') → (es.map Prod.snd).Perm (p :: es'.map Prod.snd)
  | [], _, _, h => by simp [popRight] at h
  | e :: es, es', p, h => by
    unfold popRight at h
    split at h
    · rename_i q rest hq
      obtain ⟨rfl, rfl⟩ : q = p ∧ e :: rest = es' := by simpa using h
      exact ((popRight_perm kind hq).cons e.2).trans (.swap _ _ _)
    · split_ifs at h
      obtain ⟨rfl, rfl⟩ : e.2 = p ∧ es = es' := by simpa using h
      exact .refl _

theorem moves_blmove (h : s.Tracked) (kind : String) : Moves runId s (s.blmove kind).2 := by
  unfold blmove
  split
  · rename_i q rest hq
    have hqueued : (rest.map Prod.snd ++ q :: s.pending).Perm s.queued :=
      List.perm_middle.trans ((popRight_perm kind hq).symm.append_right _)
    exact .of_perm (h.congr rfl rfl rfl) id ((hqueued.filter _).append_right _)
  · exact .refl h

/-- A popped assignment names no run, is dropped for its marker, or becomes a lease. -/
theorem drainOne_cases (s : Redis) (p : Payload) (now : ℤ) :
    (p.runId = none ∧ drainOne now s p = s) ∨ ∃ k canceled, p.runId = some k ∧
      (∀ j, s.canceled.lookup j = none → canceled.lookup j = none) ∧
      (s.canceled.lookup k ≠ none ∧ drainOne now s p = { s with canceled := canceled } ∨
        drainOne now s p = track { s with canceled := canceled } k p now) := by
  unfold drainOne
  cases hp : p.runId with
  | none => exact .inl ⟨rfl, rfl⟩
  | some k =>
    obtain ⟨canceled, hs, hmark, htrue⟩ := checkCanceled_spec s k now
    refine .inr ⟨k, canceled, rfl, hmark, ?_⟩
    rcases hcheck : s.checkCanceled k now with ⟨_ | _, _⟩
    · simp only [hcheck] at hs ⊢
      exact .inr (by rw [hs])
    · simp only [hcheck] at hs htrue ⊢
      exact .inl ⟨fun hnone => htrue trivial (hmark k hnone), hs⟩

theorem moves_drainOne (h : s.Tracked) {ps : List Payload} (hps : s.pending.Perm (p :: ps)) :
    Moves runId s (drainOne now { s with pending := ps } p) := by
  have hqueued : s.queued.Perm (p :: (s.ready.map Prod.snd ++ ps)) :=
    (hps.append_left _).trans List.perm_middle
  have hcopies : (s.copies runId).Perm
      ((p :: (s.ready.map Prod.snd ++ ps)).filter (isOf runId) ++ (s.data.lookup runId).toList) :=
    (hqueued.filter _).append_right _
  obtain ⟨hp, heq⟩ | ⟨k, canceled, hp, hmark, hres⟩ := drainOne_cases { s with pending := ps } p now
  · rw [List.filter_cons_of_neg (by simp [isOf, hp])] at hcopies
    rw [heq]
    exact .of_perm (h.congr rfl rfl rfl) id hcopies.symm
  have htracked : (Redis.mk s.ready ps s.data s.zset s.gen canceled).Tracked :=
    h.congr rfl rfl rfl
  by_cases hk : k = runId
  · subst hk
    rw [List.filter_cons_of_pos (isOf_self hp)] at hcopies
    obtain ⟨hmarked, heq⟩ | heq := hres
    · rw [heq]
      refine .of_subperm htracked (hmark k) ?_ fun hnone => absurd hnone hmarked
      exact (List.sublist_cons_self _ _).subperm.trans hcopies.symm.subperm
    · rw [heq]
      refine .of_subperm (htracked.track hp) (hmark k) ?_ fun _ hone => ?_
      · rw [copies_track_self]
        refine List.Subperm.trans ?_ hcopies.symm.subperm
        exact (List.perm_append_singleton _ _).subperm.trans (List.sublist_append_left _ _).subperm
      · -- a lease that the new one overwrites would have been a second copy
        rw [hcopies.length_eq] at hone ⊢
        rw [copies_track_self]
        simp only [List.cons_append, List.length_cons, List.length_append, List.length_nil,
          queued] at hone ⊢
        omega
  · rw [List.filter_cons_of_neg (by simp [isOf_of_ne hp hk])] at hcopies
    obtain ⟨-, heq⟩ | heq := hres
    · rw [heq]
      exact .of_perm htracked (hmark runId) hcopies.symm
    · rw [heq]
      refine .of_perm (htracked.track hp) (hmark runId) ?_
      rw [copies_track_of_ne hk]
      exact hcopies.symm

/-- A promotion of a pending assignment is one turn of the drain; another writes nothing. -/
theorem promote_eq (s : Redis) (p : Payload) (now : ℤ) : (s.promote p now).2 =
    if p ∈ s.pending then drainOne now { s with pending := s.pending.erase p } p else s := by
  unfold promote drainOne
  cases hp : p.runId with
  | none =>
    by_cases hmem : p ∈ s.pending
    · simp [hmem]
    · simp [hmem, List.erase_of_not_mem hmem]
  | some k =>
    by_cases hmem : p ∈ s.pending
    · simp only [hmem, if_true]
      rcases checkCanceled { s with pending := s.pending.erase p } k now with ⟨_ | _, _⟩ <;> rfl
    · simp only [hmem, if_false]
      split_ifs <;> rfl

theorem moves_promote (h : s.Tracked) : Moves runId s (s.promote p now).2 := by
  rw [promote_eq]
  split_ifs with hmem
  · exact moves_drainOne h (List.perm_cons_erase hmem)
  · exact .refl h

/-- The turns of the drain do not look at what is still pending. -/
theorem drainOne_pending (s : Redis) (ps : List Payload) : drainOne now { s with pending := ps } p =
      { drainOne now { s with pending := [] } p with pending := ps } := by
  unfold drainOne
  cases p.runId with
  | none => rfl
  | some k =>
    simp only [checkCanceled]
    cases s.canceled.lookup k with
    | none => rfl
    | some score => by_cases hexp : canceledMemberTTL < now - score <;> simp [hexp, track]

theorem moves_drainLoop : ∀ (ps : List Payload) {s : Redis}, s.Tracked →
    Moves runId { s with pending := ps } (ps.foldl (drainOne now) { s with pending := [] })
  | [], _, h => .refl (h.congr rfl rfl rfl)
  | p :: ps, s, h => by
    have hstep : Moves runId { s with pending := p :: ps }
        (drainOne now { s with pending := ps } p) :=
      moves_drainOne (s := { s with pending := p :: ps }) (h.congr rfl rfl rfl) (.refl _)
    rw [drainOne_pending] at hstep
    have hrest := moves_drainLoop ps
      (s := drainOne now { s with pending := [] } p) (hstep.tracked.congr rfl rfl rfl)
    have hnil : drainOne now { s with pending := [] } p =
      { drainOne now { s with pending := [] } p with pending := [] } := drainOne_pending s []
    rw [← hnil] at hrest
    exact hstep.trans hrest

theorem moves_drainPending (h : s.Tracked) : Moves runId s (s.drainPending now) :=
  moves_drainLoop s.pending h

theorem ack_cases (s : Redis) (k : String) (generation : ℤ) :
    ((s.ack k generation).1 ∧ (s.data.lookup k).isSome ∧
      (s.ack k generation).2 = s.untrack k) ∨ s.ack k generation = (false, s) := by
  unfold ack
  split_ifs with hcond
  · rw [Bool.and_eq_true] at hcond
    exact .inl ⟨rfl, hcond.1, rfl⟩
  · exact .inr rfl

theorem moves_renew (h : s.Tracked) (k : String) (generation : ℤ) :
    Moves runId s (s.renew k generation now).2 := by
  unfold renew
  split_ifs
  · refine .of_perm (fun j q hq => ?_) id (.refl _)
    obtain ⟨hid, hgen, hz⟩ := h j q hq
    exact ⟨hid, hgen, AList.mem_insert _ |>.2 (.inr hz)⟩
  · exact .refl h

/-- The lease goes back to the ready list it came from, under a generation that is not
smaller. -/
theorem moves_requeue {s' : Redis} {kind : String} {p' : Payload} (h : s.Tracked)
    (hlease : s.data.lookup k = some p) (hid : p'.runId = p.runId)
    (hgen : p.generation ≤ p'.generation) (hready : s'.ready = (kind, p') :: s.ready)
    (hpending : s'.pending = s.pending) (hdata : s'.data = s.data.erase k)
    (hgens : ∀ j, j ≠ k → s'.gen.lookup j = s.gen.lookup j) (hzset : s'.zset = s.zset.erase k)
    (hcanceled : s'.canceled = s.canceled) : Moves runId s s' := by
  have hp : p'.runId = some k := hid.trans (h k p hlease).1
  have htracked := h.erase hdata hgens hzset
  have hqueued : s'.queued = p' :: s.queued := by simp [queued, hready, hpending]
  have hunmarked : s.canceled.lookup runId = none → s'.canceled.lookup runId = none := by
    rw [hcanceled]
    exact id
  by_cases hk : k = runId
  · subst hk
    have hcopies' : s'.copies k = p' :: s.queued.filter (isOf k) := by
      rw [copies, hqueued, hdata, List.filter_cons_of_pos (isOf_self hp), AList.lookup_erase]
      simp
    have hcopies := copies_of_lookup hlease
    refine ⟨htracked, hunmarked, ?_, ?_, fun _ _ => ?_⟩
    · simp [hcopies, hcopies']
    · intro q hq
      rw [hcopies', List.mem_cons] at hq
      obtain rfl | hq := hq
      · exact ⟨p, by simp [hcopies], hgen⟩
      · exact ⟨q, by simp [hcopies, hq], le_rfl⟩
    · simp [hcopies, hcopies']
  · refine .of_perm htracked hunmarked (.of_eq ?_)
    rw [copies, hqueued, hdata, List.filter_cons_of_neg (by simp [isOf_of_ne hp hk]),
      AList.lookup_erase_ne (Ne.symm hk), copies]

theorem moves_nack (h : s.Tracked) (k : String) (generation : ℤ) :
    Moves runId s (s.nack k generation now).2 := by
  unfold nack
  split
  · exact .refl h
  · rename_i p hlease
    split_ifs
    · exact .refl h
    split
    · exact .refl h
    · rename_i kind _
      dsimp only
      split_ifs with hkept
      · exact moves_requeue h hlease rfl le_rfl rfl rfl rfl (fun _ hj => AList.lookup_erase_ne hj)
          rfl rfl
      · refine moves_untrack h fun _ hnone => ?_
        simp [hnone] at hkept

theorem moves_reclaimOne (h : s.Tracked) (maxRetries : ℤ) (k : String) :
    Moves runId s (reclaimOne now maxRetries s k).2 := by
  unfold reclaimOne
  cases hlease : s.data.lookup k with
  | none =>
    have hdata : s.data.erase k = s.data :=
      AList.ext (List.kerase_of_notMem_keys (AList.lookup_eq_none.1 hlease))
    exact .of_perm (h.erase hdata.symm (fun _ hj => AList.lookup_erase_ne hj) rfl) id (.refl _)
  | some p =>
    have hcheck : Moves runId s (s.checkCanceled k now).2 := moves_checkCanceled h
    obtain ⟨canceled, hs, _, htrue⟩ := checkCanceled_spec s k now
    generalize s.checkCanceled k now = r at hcheck hs htrue
    rcases r with ⟨_ | _, s₁⟩
    · obtain rfl : s₁ = { s with canceled := canceled } := hs
      have hgen : s.gen.lookup k = some p.generation := (h k p hlease).2.1
      simp only [hgen, Option.getD_some, Option.isSome_some, if_true]
      split_ifs
      · exact hcheck
      · exact hcheck
      · cases p.runnerKind with
        | none => exact hcheck
        | some =>
          refine hcheck.trans (moves_requeue hcheck.tracked hlease (Payload.runId_appendGeneration _ _)
            ?_ rfl rfl rfl (fun _ hj => AList.lookup_insert_ne hj) rfl rfl)
          rw [Payload.generation_appendGeneration]
          omega
    · obtain rfl : s₁ = { s with canceled := canceled } := hs
      exact hcheck.trans (moves_untrack hcheck.tracked fun _ => htrue rfl)

/-- What each turn of the loop keeps, and the trimming of the markers, the script keeps. -/
theorem reclaimStale_invariant {P : Redis → Prop} {maxRetries : ℤ}
    (hone : ∀ s k, P s → P (reclaimOne now maxRetries s k).2)
    (htrim : ∀ s cutoff, P s → P (s.trimCanceled cutoff)) (hs : P s) (cutoff : ℤ) :
    P (s.reclaimStale cutoff now maxRetries).2 := by
  have hloop : ∀ runIds s, P s → P (reclaimLoop now maxRetries s runIds).2 := by
    intro runIds
    induction runIds with
    | nil => exact fun _ => id
    | cons k runIds ih =>
      intro s hs
      have hk := hone s k hs
      unfold reclaimLoop
      split <;> rename_i heq <;> rw [heq] at hk
      · exact hk
      · exact ih _ hk
  have hend := hloop (s.staleIds cutoff) s hs
  unfold reclaimStale
  split <;> rename_i heq <;> rw [heq] at hend
  · exact hend
  · exact htrim _ _ hend

theorem moves_reclaimStale (h : s.Tracked) (cutoff maxRetries : ℤ) :
    Moves runId s (s.reclaimStale cutoff now maxRetries).2 :=
  reclaimStale_invariant (fun _ k hs => hs.trans (moves_reclaimOne hs.tracked maxRetries k))
    (fun _ cutoff hs => hs.trans (moves_trimCanceled hs.tracked cutoff)) (.refl h) cutoff

end Redis

/-! ## Runs of the queue -/

namespace QueueStep

/-- The step pushes an assignment of the run. -/
def enqueues (runId : String) : QueueStep → Redis → Bool
  | .enqueue job, _ => job.runId = runId
  | _, _ => false

/-- The step is an `Ack` of the run that the queue accepts. -/
def acks (runId : String) : QueueStep → Redis → Bool
  | .ack k generation, s => k = runId && (s.ack k generation).1
  | _, _ => false

def cancels (runId : String) : QueueStep → Redis → Bool
  | .cancel k _, _ => k = runId
  | _, _ => false

end QueueStep

open QueueStep Redis

variable {runId : String} {s : Redis}

theorem copies_enqueue (s : Redis) (job : RunAssignment) : (s.enqueue job).copies runId =
      if job.runId = runId then job.marshal :: s.copies runId else s.copies runId := by
  have hqueued : (s.enqueue job).queued = job.marshal :: s.queued := rfl
  split_ifs with hid
  · rw [copies, hqueued, List.filter_cons_of_pos (isOf_self (hid ▸ job.runId_marshal))]
    rfl
  · rw [copies, hqueued, List.filter_cons_of_neg (by simp [isOf_of_ne job.runId_marshal hid])]
    rfl

/-- A step moves the copies of the run, or it is one of the three that are about the run. -/
theorem perform_cases (runId : String) (h : s.Tracked) (step : QueueStep) :
    (step.enqueues runId s ∧ step.acks runId s = false ∧ step.cancels runId s = false ∧
      ∃ job, job.runId = runId ∧ step.perform s = s.enqueue job) ∨
    (step.enqueues runId s = false ∧ step.acks runId s ∧ step.cancels runId s = false ∧
      (s.data.lookup runId).isSome ∧ step.perform s = s.untrack runId) ∨
    (step.enqueues runId s = false ∧ step.acks runId s = false ∧ step.cancels runId s ∧
      ∃ now, step.perform s = s.cancel runId now) ∨
    (step.enqueues runId s = false ∧ step.acks runId s = false ∧ step.cancels runId s = false ∧
      Moves runId s (step.perform s)) := by
  cases step with
  | enqueue job =>
    by_cases hid : job.runId = runId
    · exact .inl ⟨by simp [enqueues, hid], rfl, rfl, job, hid, rfl⟩
    · exact .inr (.inr (.inr ⟨by simp [enqueues, hid], rfl, rfl, .of_perm (h.congr rfl rfl rfl) id
        (.of_eq (by simp [perform, copies_enqueue, hid]))⟩))
  | ack k generation =>
    obtain ⟨hok, hsome, heq⟩ | heq := ack_cases s k generation
    · by_cases hid : k = runId
      · subst hid
        exact .inr (.inl ⟨rfl, by simp [acks, hok], rfl, hsome, heq⟩)
      · refine .inr (.inr (.inr ⟨rfl, by simp [acks, hid], rfl, ?_⟩))
        simp only [perform, heq]
        exact moves_untrack h fun hk => absurd hk hid
    · refine .inr (.inr (.inr ⟨rfl, by simp [acks, heq], rfl, ?_⟩))
      simp only [perform, heq]
      exact .refl h
  | cancel k now =>
    by_cases hid : k = runId
    · subst hid
      exact .inr (.inr (.inl ⟨rfl, rfl, by simp [cancels], now, rfl⟩))
    · have huntrack : Moves runId s (s.untrack k) := moves_untrack h fun hk => absurd hk hid
      have hmark : Moves runId (s.untrack k)
          { s.untrack k with canceled := (s.untrack k).canceled.insert k now } :=
        .of_perm (huntrack.tracked.congr rfl rfl rfl)
          (fun hnone => (AList.lookup_insert_ne (Ne.symm hid)).trans hnone) (.refl _)
      exact .inr (.inr (.inr ⟨rfl, rfl, by simp [cancels, hid],
        huntrack.trans (hmark.trans (moves_trimCanceled hmark.tracked _))⟩))
  | forgetCanceled k =>
    exact .inr (.inr (.inr ⟨rfl, rfl, rfl,
      .of_perm (h.congr rfl rfl rfl) (lookup_erase_eq_none k) (.refl _)⟩))
  | blmove kind => exact .inr (.inr (.inr ⟨rfl, rfl, rfl, moves_blmove h kind⟩))
  | promote => exact .inr (.inr (.inr ⟨rfl, rfl, rfl, moves_promote h⟩))
  | drainPending => exact .inr (.inr (.inr ⟨rfl, rfl, rfl, moves_drainPending h⟩))
  | renew k generation now => exact .inr (.inr (.inr ⟨rfl, rfl, rfl, moves_renew h k generation⟩))
  | nack k generation now => exact .inr (.inr (.inr ⟨rfl, rfl, rfl, moves_nack h k generation⟩))
  | reclaimStale cutoff now maxRetries =>
    exact .inr (.inr (.inr ⟨rfl, rfl, rfl, moves_reclaimStale h cutoff maxRetries⟩))

theorem Redis.Tracked.cancel (h : s.Tracked) (now : ℤ) : (s.cancel runId now).Tracked :=
  (h.untrack (k := runId)).congr rfl rfl rfl

theorem copies_cancel_self (s : Redis) (runId : String) (now : ℤ) :
    (s.cancel runId now).copies runId = s.queued.filter (isOf runId) := by
  rw [show (s.cancel runId now).copies runId = (s.untrack runId).copies runId from
    copies_congr rfl rfl, copies_untrack_self]

theorem tracked_perform (step : QueueStep) (h : s.Tracked) : (step.perform s).Tracked := by
  obtain ⟨-, -, -, _, -, heq⟩ | ⟨-, -, -, -, heq⟩ | ⟨-, -, -, now, heq⟩ | ⟨-, -, -, hmoves⟩ :=
    perform_cases "" h step
  · rw [heq]
    exact h.congr rfl rfl rfl
  · rw [heq]
    exact h.untrack
  · rw [heq]
    exact h.cancel now
  · exact hmoves.tracked

/-- Only an enqueue adds a copy, and an accepted ack takes one. -/
theorem length_copies_perform_le (runId : String) (step : QueueStep) (h : s.Tracked) :
    ((step.perform s).copies runId).length + (step.acks runId s).toNat ≤
      (s.copies runId).length + (step.enqueues runId s).toNat := by
  obtain ⟨henq, hack, -, _, hid, heq⟩ | ⟨henq, hack, -, hsome, heq⟩ | ⟨henq, hack, -, _, heq⟩ |
    ⟨henq, hack, -, hmoves⟩ := perform_cases runId h step
  · simp [henq, hack, heq, copies_enqueue, hid]
  · obtain ⟨p, hp⟩ := Option.isSome_iff_exists.1 hsome
    simp [henq, hack, heq, copies_untrack_self, copies_of_lookup hp]
  · rw [heq, copies_cancel_self]
    simp [henq, hack, copies]
  · simpa [henq, hack] using hmoves.length_le

theorem length_copies_perform_eq (step : QueueStep) (h : s.Tracked)
    (hcancel : step.cancels runId s = false) (hmark : s.canceled.lookup runId = none)
    (hone : (s.copies runId).length + (step.enqueues runId s).toNat ≤ 1) :
    ((step.perform s).copies runId).length + (step.acks runId s).toNat =
      (s.copies runId).length + (step.enqueues runId s).toNat ∧
    (step.perform s).canceled.lookup runId = none := by
  obtain ⟨henq, hack, -, _, hid, heq⟩ | ⟨henq, hack, -, hsome, heq⟩ | ⟨-, -, htrue, -⟩ |
    ⟨henq, hack, -, hmoves⟩ := perform_cases runId h step
  · exact ⟨by simp [henq, hack, heq, copies_enqueue, hid], by rw [heq]; exact hmark⟩
  · obtain ⟨p, hp⟩ := Option.isSome_iff_exists.1 hsome
    exact ⟨by simp [henq, hack, heq, copies_untrack_self, copies_of_lookup hp],
      by rw [heq]; exact hmark⟩
  · simp [hcancel] at htrue
  · have hle := hmoves.length_le
    have hge := hmoves.kept hmark (by omega)
    simp only [henq, hack, Bool.toNat_false]
    exact ⟨by omega, hmoves.unmarked hmark⟩

theorem derived_perform (step : QueueStep) (h : s.Tracked) (henq : step.enqueues runId s = false) :
    ∀ p' ∈ (step.perform s).copies runId, ∃ p ∈ s.copies runId, p.generation ≤ p'.generation := by
  obtain ⟨htrue, -⟩ | ⟨-, -, -, -, heq⟩ | ⟨-, -, -, _, heq⟩ | ⟨-, -, -, hmoves⟩ :=
    perform_cases runId h step
  · simp [henq] at htrue
  · intro p hp
    rw [heq, copies_untrack_self] at hp
    exact ⟨p, List.mem_append_left _ hp, le_rfl⟩
  · intro p hp
    rw [heq, copies_cancel_self] at hp
    exact ⟨p, List.mem_append_left _ hp, le_rfl⟩
  · exact hmoves.derived

/-! ## Whole runs -/

theorem tracked_run (steps : List QueueStep) (h : s.Tracked) : (run perform steps s).Tracked :=
  invariant_of_step (fun step _ => tracked_perform step) steps h

theorem length_copies_run_le (runId : String) (steps : List QueueStep) (h : s.Tracked) :
    ((run perform steps s).copies runId).length +
        count perform (acks runId) steps s ≤
      (s.copies runId).length + count perform (enqueues runId) steps s :=
  @balance_le _ _ perform Tracked (fun s => (s.copies runId).length) _ _
    (fun step _ => tracked_perform step) (fun step _ => length_copies_perform_le runId step) _ _ h

theorem length_copies_run_eq : ∀ (steps : List QueueStep) {s : Redis}, s.Tracked →
    s.canceled.lookup runId = none →
    Trace.Every perform (fun step s => step.cancels runId s = false) steps s →
    (s.copies runId).length + count perform (enqueues runId) steps s ≤ 1 →
    ((run perform steps s).copies runId).length +
        count perform (acks runId) steps s =
      (s.copies runId).length + count perform (enqueues runId) steps s
  | [], _, _, _, _, _ => rfl
  | step :: steps, s, h, hmark, ⟨hcancel, hsteps⟩, hone => by
    simp only [run_cons, count_cons] at hone ⊢
    obtain ⟨_, hmark'⟩ := length_copies_perform_eq step h hcancel hmark (by omega)
    have hrest := length_copies_run_eq steps (tracked_perform step h) hmark' hsteps (by omega)
    omega

theorem derived_run : ∀ (steps : List QueueStep) {s : Redis}, s.Tracked →
    count perform (enqueues runId) steps s = 0 →
    ∀ p' ∈ (run perform steps s).copies runId,
      ∃ p ∈ s.copies runId, p.generation ≤ p'.generation
  | [], _, _, _, p', hp' => ⟨p', hp', le_rfl⟩
  | step :: steps, s, h, hnone, p'', hp'' => by
    simp only [run_cons, count_cons] at hnone hp''
    obtain ⟨p', hp', hle'⟩ := derived_run steps (tracked_perform step h) (by omega) p'' hp''
    have henq : step.enqueues runId s = false := by
      cases hb : step.enqueues runId s
      · rfl
      · simp [hb] at hnone
    obtain ⟨p, hp, hle⟩ := derived_perform step h henq p' hp'
    exact ⟨p, hp, hle.trans hle'⟩

theorem tracked_empty : Tracked {} := by
  intro k p hp
  simp at hp

/-- In every interleaving of the queue's steps, for a run that is enqueued once : while it is
neither canceled nor acked it has exactly one copy, and never more; no later copy has a
smaller generation than an earlier one; and at most one `Ack` of it is accepted, whatever
the generation it presents. Every lease is under its own run's id, its generation key holds
the generation of the stored assignment, and its id is in the time index. -/
theorem queue_no_loss_no_duplication (runId : String) (steps : List QueueStep)
    (honce : Trace.count perform (enqueues runId) steps {} = 1) :
    (Trace.Every perform (fun step s => step.cancels runId s = false) steps {} →
      Trace.count perform (acks runId) steps {} = 0 →
      ((Trace.run perform steps {}).copies runId).length = 1) ∧
    ((Trace.run perform steps {}).copies runId).length ≤ 1 ∧
    (∀ before later, steps = before ++ later →
      ∀ p ∈ (Trace.run perform before {}).copies runId,
      ∀ p' ∈ (Trace.run perform steps {}).copies runId, p.generation ≤ p'.generation) ∧
    (∀ p, (Trace.run perform steps {}).data.lookup runId = some p →
      p.runId = some runId ∧
      (Trace.run perform steps {}).gen.lookup runId = some p.generation ∧
      runId ∈ (Trace.run perform steps {}).zset) ∧
    Trace.count perform (acks runId) steps {} ≤ 1 := by
  have hbalance := length_copies_run_le runId steps tracked_empty
  rw [honce] at hbalance
  have hempty : (copies {} runId).length = 0 := rfl
  refine ⟨fun hcancel hacks => ?_, by omega, ?_, fun p => tracked_run steps tracked_empty runId p,
    by omega⟩
  · have heq := length_copies_run_eq steps tracked_empty rfl hcancel (by omega)
    omega
  · rintro before later rfl p hp p' hp'
    have hbefore : (run perform before {}).Tracked := tracked_run before tracked_empty
    have hle := length_copies_run_le runId before tracked_empty
    rw [count_append] at honce
    rw [run_append] at hp'
    -- a copy that exists was pushed before, so that what follows pushes none
    have hpos : 0 < ((run perform before {}).copies runId).length := List.length_pos_of_mem hp
    obtain ⟨q, hq, hgen⟩ := derived_run later hbefore (by omega) p' hp'
    obtain ⟨_, honly⟩ := List.length_eq_one_iff.1
      (show ((run perform before {}).copies runId).length = 1 by omega)
    rw [honly, List.mem_singleton] at hp hq
    rw [hp, ← hq]
    exact hgen

/-- A run that is reclaimed after a crash between the move and the promotion, and is then
delivered and acked. -/
def crashedAndReclaimed : List QueueStep :=
  [.enqueue ⟨"r", "k", 1, [], [], []⟩, .blmove "k", .drainPending 10, .reclaimStale 20 30 3,
    .blmove "k", .promote [.runId "r", .runnerKind "k", .generation 1, .generation 2] 40,
    .ack "r" 1, .ack "r" 2, .ack "r" 2]

theorem queue_no_loss_no_duplication_crash :
    Trace.count perform (acks "r") crashedAndReclaimed {} ≤ 1 ∧
      ((Trace.run perform (crashedAndReclaimed.take 7) {}).copies "r").length = 1 :=
  ⟨(queue_no_loss_no_duplication "r" crashedAndReclaimed (by decide +kernel)).2.2.2.2,
    (queue_no_loss_no_duplication "r" (crashedAndReclaimed.take 7) (by decide +kernel)).1
      (by decide +kernel) (by decide +kernel)⟩

/-- However often a run is enqueued, its copies and the accepted acks of it are together no more
than its enqueues. -/
theorem copies_acks_le_enqueues (runId : String) (steps : List QueueStep) :
    ((Trace.run perform steps {}).copies runId).length +
      Trace.count perform (acks runId) steps {} ≤ Trace.count perform (enqueues runId) steps {} := by
  have hbalance := length_copies_run_le runId steps tracked_empty
  have hempty : (copies {} runId).length = 0 := rfl
  omega

end Runkite
