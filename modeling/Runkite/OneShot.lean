import Runkite.PendingStore
import Runkite.Trace

/-!
# Approvals are used at most once

`Change` lists what a statement can do to the table of pending actions, and `step_change` says
that each step of the store does one of these. A row moves from pending to approved or denied,
and from approved to consumed if it has no expiry (`RowMoves`), and an open row holds the key of
its scope. `one_shot_approvals` follows for every interleaving.
-/

open Transaction (Body query transact write)

namespace Runkite

open Consumption PendingTable PendingStore

open PendingTable (approvable isIn lapsed)

variable {sha256 : Sha256} {t t' : PendingTable} {s : PendingStore}

/-! ## Statements -/

theorem mem_of_oldest : ∀ {rows : List PendingAction} {r : PendingAction},
    oldest rows = some r → r ∈ rows
  | [], r, h => by rw [oldest] at h; cases h
  | r₀ :: rows, r, h => by
    rw [oldest] at h
    split at h
    · rename_i r' hr'
      split_ifs at h
      · cases h
        exact List.mem_cons_of_mem _ (mem_of_oldest hr')
      · cases h
        exact List.mem_cons_self
    · cases h
      exact List.mem_cons_self

variable {r : PendingAction}

theorem PendingTable.of_findApproved {scope : CallScope} (h : t.findApproved scope = some r) :
    t.get? r.id = some r ∧ r.toCallScope = scope ∧ r.expiresAt = none := by
  obtain ⟨hmem, hr⟩ := List.mem_filter.1 (mem_of_oldest h)
  simp only [Bool.and_eq_true, decide_eq_true_eq, Option.isNone_iff_eq_none] at hr
  exact ⟨Table.mem_iff_get?.1 hmem, hr.1.1, hr.2⟩

/-- A row as it is inserted : open, under the key of its scope. -/
structure PendingAction.Fresh (sha256 : Sha256) (r : PendingAction) : Prop where
  status : r.status = .pending
  key : r.pendingKey = some (scopeKey sha256 r.toCallScope r.expiresAt.isSome)

/-- The expiry that a caller sets is not the zero time, which the store would write as NULL. -/
theorem Submission.isSome_formatExpiry (now : Time) (sub : Submission) :
    (formatExpiry (sub.expiresAt now)).isSome = (sub.expiresAt now).isSome := by
  have hpos : now + governancePendingTTL ≠ 0 := by simp [governancePendingTTL]
  unfold Submission.expiresAt
  split_ifs
  · rw [formatExpiry, if_neg hpos, Option.isSome_some, Option.isSome_some]
  · rfl

theorem fresh_of_persistPendingAction {now : Time} {sub : Submission} {a : NewAction}
    (h : persistPendingAction sha256 now sub = some a) (text : String) :
    (a.row sha256 text).Fresh sha256 := by
  unfold persistPendingAction at h
  split_ifs at h
  cases h
  have hstatus : (sub.action sha256 now).effectiveStatus = .pending := rfl
  refine ⟨hstatus, ?_⟩
  rw [NewAction.row, NewAction.openKey, if_pos hstatus, NewAction.pendingActionKey]
  exact congrArg (fun b => some (scopeKey sha256 _ b)) (sub.isSome_formatExpiry now).symm

/-! ## Changes of the table -/

/-- What a statement can do to the table. -/
inductive Change (sha256 : Sha256) (t : PendingTable) : PendingTable → Prop where
  | unchanged : Change sha256 t t
  | insert {r : PendingAction} {t' : PendingTable} (hrow : r.Fresh sha256)
    (h : t.toTable.insert r = some t'.toTable) : Change sha256 t t'
  | approve (id decidedBy now : String) (time : Time) :
    Change sha256 t (t.setPendingActionApproved id decidedBy now time).2
  | deny (id now : String) :
    Change sha256 t (t.setPendingActionStatus id .pending .denied now).2
  | expire (now : String) (time : Time) :
    Change sha256 t (t.expireGovernancePending now time).2
  | consume {id : String} {r : PendingAction} (now : String) (hget : t.get? id = some r)
    (hexpires : r.expiresAt = none) : Change sha256 t (t.markConsumed id now).2

/-- What a change does to a row : nothing, or one of three moves of its status. -/
structure RowMoves (r r' : PendingAction) : Prop where
  scope : r'.toCallScope = r.toCallScope
  expires : r'.expiresAt = r.expiresAt
  status : r' = r ∨ r.status = .pending ∧ r'.status = .approved ∨
    r.status = .pending ∧ r'.status = .denied ∨
    r.status = .approved ∧ r'.status = .consumed ∧ r.expiresAt = none

namespace RowMoves

variable {r r' : PendingAction}

protected theorem refl (r : PendingAction) : RowMoves r r := ⟨rfl, rfl, .inl rfl⟩

theorem denied (h : RowMoves r r') (hr : r.status = .denied) : r'.status = .denied := by
  obtain rfl | ⟨hp, -⟩ | ⟨hp, -⟩ | ⟨ha, -⟩ := h.status
  · exact hr
  · rw [hr] at hp; cases hp
  · rw [hr] at hp; cases hp
  · rw [hr] at ha; cases ha

/-- A row with an expiry is not consumed. -/
theorem ne_consumed (h : RowMoves r r') (hr : r.expiresAt.isSome → r.status ≠ .consumed)
    (hexpires : r'.expiresAt.isSome) : r'.status ≠ .consumed := by
  rw [h.expires] at hexpires
  obtain rfl | ⟨-, ha⟩ | ⟨-, hd⟩ | ⟨-, -, hnone⟩ := h.status
  · exact hr hexpires
  · rw [ha]; intro h; cases h
  · rw [hd]; intro h; cases h
  · rw [hnone] at hexpires; cases hexpires

/-- A row that is open afterwards was left alone. -/
theorem eq_of_pending (h : RowMoves r r') (hr : r'.status = .pending) : r' = r := by
  obtain heq | ⟨-, ha⟩ | ⟨-, hd⟩ | ⟨-, hc, -⟩ := h.status
  · exact heq
  · rw [hr] at ha; cases ha
  · rw [hr] at hd; cases hd
  · rw [hr] at hc; cases hc

end RowMoves

variable {p : PendingAction → Bool} {decidedBy reasonCode : Option String} {call : StoreCall}
  {id : String}

theorem PendingTable.rows_setStatus {status : PendingStatus} {now : String}
    (hmove : ∀ r, t.get? id = some r → p r → r.status = .pending ∧ status = .approved ∨
      r.status = .pending ∧ status = .denied ∨
      r.status = .approved ∧ status = .consumed ∧ r.expiresAt = none)
    {r' : PendingAction} (h : (t.setStatus p status now decidedBy reasonCode).2.get? id = some r') :
    ∃ r, t.get? id = some r ∧ RowMoves r r' := by
  rw [get?_setStatus] at h
  obtain ⟨r, hr, rfl⟩ := Option.map_eq_some_iff.1 h
  refine ⟨r, hr, ?_⟩
  split_ifs with hp
  · exact ⟨rfl, rfl, .inr (hmove r hr hp)⟩
  · exact .refl r

/-- A row after a change was there before, or has just been inserted. -/
theorem Change.row (h : Change sha256 t t') {r' : PendingAction} (hr' : t'.get? id = some r') :
    (∃ r, t.get? id = some r ∧ RowMoves r r') ∨ t.get? id = none ∧ r'.Fresh sha256 := by
  cases h with
  | unchanged => exact .inl ⟨r', hr', .refl r'⟩
  | insert hrow hins =>
    rw [Table.get?_of_insert hins] at hr'
    split_ifs at hr' with hid
    · cases hr'
      exact .inr ⟨hid ▸ (Table.rows_of_insert hins).1, hrow⟩
    · exact .inl ⟨r', hr', .refl r'⟩
  | approve =>
    refine .inl (rows_setStatus (fun r _ hp => ?_) hr')
    simp only [approvable, Bool.and_eq_true, decide_eq_true_eq] at hp
    exact .inl ⟨hp.1.2, rfl⟩
  | deny =>
    refine .inl (rows_setStatus (fun r _ hp => ?_) hr')
    simp only [isIn, Bool.and_eq_true, decide_eq_true_eq] at hp
    exact .inr (.inl ⟨hp.2, rfl⟩)
  | expire =>
    refine .inl (rows_setStatus (fun r _ hp => ?_) hr')
    simp only [lapsed, Bool.and_eq_true, decide_eq_true_eq] at hp
    exact .inr (.inl ⟨hp.1, rfl⟩)
  | @consume id₀ r₀ now hget hexpires =>
    refine .inl (rows_setStatus (fun r hr hp => ?_) hr')
    simp only [isIn, Bool.and_eq_true, decide_eq_true_eq] at hp
    -- the row that is updated is the one that the call selected
    obtain rfl : id = id₀ := (Table.key_of_get? hr).symm.trans hp.1
    cases hget.symm.trans hr
    exact .inr (.inr ⟨hp.2, rfl, hexpires⟩)

/-- Rows are not deleted. -/
theorem Change.keeps (h : Change sha256 t t')
    (hr : t.get? id = some r) : ∃ r', t'.get? id = some r' ∧ RowMoves r r' := by
  have hsome : ∃ r', t'.get? id = some r' := by
    cases h with
    | unchanged => exact ⟨r, hr⟩
    | @insert r₀ _ hrow hins =>
      rw [Table.get?_of_insert hins]
      split_ifs
      · exact ⟨r₀, rfl⟩
      · exact ⟨r, hr⟩
    | approve | deny | expire | consume =>
      exact ⟨_, (get?_setStatus ..).trans (congrArg _ hr)⟩
  obtain ⟨r', hr'⟩ := hsome
  obtain ⟨_, hr₀, hmoves⟩ | ⟨hnone, -⟩ := h.row hr'
  · cases hr.symm.trans hr₀
    exact ⟨r', hr', hmoves⟩
  · rw [hr] at hnone
    cases hnone

/-! ## The invariant -/

/-- The row that the call is about to consume has the call's scope and no expiry. -/
def Consumption.Selected (t : PendingTable) (c : Consumption) : Prop :=
  ∀ id, c.phase = .update id →
    ∃ r, t.get? id = some r ∧ r.toCallScope = c.scope ∧ r.expiresAt = none

/-- The table of a reachable state, and what the calls in progress rest on. -/
structure PendingStore.Sound (sha256 : Sha256) (s : PendingStore) : Prop where
  /-- An open row holds the key of its scope. -/
  keyed : ∀ r ∈ s.table.rows, r.status = .pending → r.Fresh sha256
  unconsumed : ∀ r ∈ s.table.rows, r.expiresAt.isSome → r.status ≠ .consumed
  creating : ∀ c ∈ s.creations, (c.action.row sha256 c.now).Fresh sha256
  consuming : ∀ c ∈ s.consumptions, c.Selected s.table

theorem PendingStore.sound_empty : empty.Sound sha256 where
  keyed _ h := absurd h List.not_mem_nil
  unconsumed _ h := absurd h List.not_mem_nil
  creating _ h := absurd h List.not_mem_nil
  consuming _ h := absurd h List.not_mem_nil

/-! ## Steps -/

theorem insertAction_cases (r : PendingAction) (call : StoreCall) (t : PendingTable) :
    (write call.driver (fun t : PendingTable => t.insertAction r) t).2 = t ∨
      t.toTable.insert r =
        some (write call.driver (fun t : PendingTable => t.insertAction r) t).2.toTable := by
  obtain ⟨e, he⟩ | ⟨a, t', hf, hres⟩ :=
    Transaction.write_cases call.driver (fun t : PendingTable => t.insertAction r) t
  · exact .inl (by rw [he])
  · have heq : (write call.driver (fun t : PendingTable => t.insertAction r) t).2 = t' := by
      obtain heq | ⟨e, -, heq⟩ := hres <;> rw [heq]
    rw [heq]
    unfold insertAction at hf
    split at hf
    · rename_i t₁ hins
      obtain ⟨-, rfl⟩ := Prod.mk.inj (Except.ok.inj hf)
      exact UniqueTable.insertOrIgnore_cases hins
    · cases hf

theorem Creation.next_cases (call : StoreCall) (c : Creation) (t : PendingTable) :
    ∃ p t', c.next sha256 call t = (c.goto p, t') ∧
      (t' = t ∨ t.toTable.insert (c.action.row sha256 c.now) = some t'.toTable) := by
  unfold Creation.next
  split
  · split_ifs
    · split <;> exact ⟨_, t, rfl, .inl rfl⟩
    · exact ⟨_, t, rfl, .inl rfl⟩
  · have hins := insertAction_cases (c.action.row sha256 c.now) call t
    split
    · rename_i e t' heq
      rw [heq] at hins
      exact ⟨_, t', rfl, hins⟩
    · rename_i u t' heq
      rw [heq] at hins
      split_ifs <;> exact ⟨_, t', rfl, hins⟩
  · split <;> exact ⟨_, t, rfl, .inl rfl⟩
  · split <;> exact ⟨_, t, rfl, .inl rfl⟩
  · exact ⟨c.phase, t, rfl, .inl rfl⟩

variable {c : Consumption}

theorem Consumption.next_cases (call : StoreCall) (c : Consumption) (t : PendingTable) :
    (∃ r, t.findApproved c.scope = some r ∧ c.next call t = (c.goto (.update r.id), t)) ∨
    (∃ id result, c.phase = .update id ∧ (t.markConsumed id call.now).1 ∧
      c.next call t = (c.goto (.done result), (t.markConsumed id call.now).2)) ∨
    ∃ result, c.next call t = (c.goto (.done result), t) ∧
      ((c.goto (.done result)).consumed? = none ∨ c.phase = .done result) := by
  unfold next
  cases hphase : c.phase with
  | select =>
    dsimp only
    cases hquery : query call.driver
      (fun t : PendingTable => (.ok (t.findApproved c.scope) : Except StoreError _)) t with
    | error e => exact .inr (.inr ⟨_, rfl, .inl rfl⟩)
    | ok found =>
      have hfound := Except.ok.inj (Transaction.query_ok hquery :)
      cases found with
      | none => exact .inr (.inr ⟨_, rfl, .inl rfl⟩)
      | some r => exact .inl ⟨r, hfound, rfl⟩
  | update id =>
    dsimp only
    rcases Transaction.transact_cases
      (Body.statement (fun t : PendingTable => .ok (t.markConsumed id call.now)) Body.done)
      (fun affected => affected) call.driver t with
      ⟨-, e, he⟩ | ⟨-, a, t', -, hk, hr⟩ | ⟨-, a, t', hrun, hk, hr⟩
    · rw [he]
      exact .inr (.inr ⟨_, rfl, .inl rfl⟩)
    · rw [hr]
      subst hk
      exact .inr (.inr ⟨_, rfl, .inl rfl⟩)
    · have hmark : t.markConsumed id call.now = (a, t') := by simpa [Body.run] using hrun
      refine .inr (.inl ⟨id, ?_⟩)
      rw [hmark]
      rcases hr with hr | ⟨e, -, hr⟩ <;> rw [hr] <;> exact ⟨_, rfl, hk, rfl⟩
  | done result => exact .inr (.inr ⟨result, by dsimp only [goto]; rw [← hphase], .inr rfl⟩)

theorem Consumption.next_scope : (c.next call t).1.scope = c.scope := by
  obtain ⟨_, -, heq⟩ | ⟨_, _, -, -, heq⟩ | ⟨_, heq, -⟩ := c.next_cases call t <;> rw [heq] <;> rfl

theorem Consumption.of_next_update (h : (c.next call t).1.phase = .update id) :
    (c.next call t).2 = t ∧
      ∃ r, t.get? id = some r ∧ r.toCallScope = c.scope ∧ r.expiresAt = none := by
  obtain ⟨r, hfound, heq⟩ | ⟨_, _, -, -, heq⟩ | ⟨_, heq, -⟩ := c.next_cases call t
  · rw [heq] at h ⊢
    cases h
    exact ⟨rfl, r, of_findApproved hfound⟩
  · rw [heq] at h
    cases h
  · rw [heq] at h
    cases h

theorem Consumption.next_table (call : StoreCall) (hc : c.Selected t) :
    (c.next call t).2 = t ∨ ∃ id r, t.get? id = some r ∧ r.expiresAt = none ∧
      (c.next call t).2 = (t.markConsumed id call.now).2 := by
  obtain ⟨_, -, heq⟩ | ⟨id, _, hphase, -, heq⟩ | ⟨_, heq, -⟩ := c.next_cases call t
  · exact .inl (by rw [heq])
  · obtain ⟨r, hr, -, hexpires⟩ := hc id hphase
    exact .inr ⟨id, r, hr, hexpires, by rw [heq]⟩
  · exact .inl (by rw [heq])

theorem PendingStore.exec_table {P : PendingTable → Prop} (call : StoreCall)
    (f : PendingTable → Bool × PendingTable) (hsame : P s.table) (hdone : P (f s.table).2) :
    P (s.exec call f).table := by
  obtain h | h := Transaction.write_total call.driver f s.table
  · rwa [exec, h]
  · rwa [exec, h]

namespace PendingStore

theorem step_change (hs : s.Sound sha256) (ev : PendingEvent) :
    Change sha256 s.table (step sha256 ev s).table := by
  cases ev with
  | create =>
    simp only [step]
    split <;> exact .unchanged
  | createNext i call =>
    simp only [step]
    split
    · rename_i c hc
      obtain ⟨_, _, heq, rfl | hins⟩ := @Creation.next_cases sha256 call c s.table
      · rw [heq]
        exact .unchanged
      · rw [heq]
        exact .insert (hs.creating c (List.mem_of_getElem? hc)) hins
    · exact .unchanged
  | consume => exact .unchanged
  | consumeNext i call =>
    simp only [step]
    split
    · rename_i c hc
      obtain hsame | ⟨id, r, hr, hexpires, hmarked⟩ :=
        c.next_table call (hs.consuming c (List.mem_of_getElem? hc))
      · rw [hsame]
        exact .unchanged
      · rw [hmarked]
        exact .consume call.now hr hexpires
    · exact .unchanged
  | approve id decidedBy call =>
    exact exec_table (P := Change sha256 s.table) call _ .unchanged (.approve ..)
  | deny id call => exact exec_table (P := Change sha256 s.table) call _ .unchanged (.deny ..)
  | expire call => exact exec_table (P := Change sha256 s.table) call _ .unchanged (.expire ..)

/-- A call that selected a row still finds it after a change. -/
theorem Selected.change (hc : c.Selected t) (h : Change sha256 t t') : c.Selected t' := by
  intro id hphase
  obtain ⟨r, hr, hscope, hexpires⟩ := hc id hphase
  obtain ⟨r', hr', hmoves⟩ := h.keeps hr
  exact ⟨r', hr', hmoves.scope.trans hscope, hmoves.expires.trans hexpires⟩

theorem selected_start (scope : CallScope) : (start scope).Selected t := by
  intro id hphase
  unfold start at hphase
  split_ifs at hphase

section

variable (hs : s.Sound sha256) (ev : PendingEvent)
include hs

/-- The calls of a reachable state afterwards. -/
theorem step_consuming :
    ∀ c ∈ (step sha256 ev s).consumptions, c.Selected (step sha256 ev s).table := by
  have hchange := step_change hs ev
  have hold : ∀ c ∈ s.consumptions, c.Selected (step sha256 ev s).table := fun c hc =>
    Selected.change (hs.consuming c hc) hchange
  intro c hc
  cases ev with
  | create | createNext =>
    refine hold c ?_
    simp only [step] at hc
    split at hc <;> exact hc
  | consume scope =>
    obtain hc | hc := List.mem_append.1 hc
    · exact hold c hc
    · rw [List.mem_singleton.1 hc]
      exact selected_start scope
  | consumeNext i call =>
    cases hget : s.consumptions[i]? with
    | none =>
      simp only [step, hget] at hc
      exact hold c hc
    | some c₀ =>
      have hc' : c ∈ s.consumptions.set i (c₀.next call s.table).1 := by
        simpa [step, hget] using hc
      obtain hc' | rfl := List.mem_or_eq_of_mem_set hc'
      · exact hold c hc'
      · intro id hphase
        obtain ⟨hsame, r, hr, hscope, hexpires⟩ := of_next_update hphase
        have htable : (step sha256 (.consumeNext i call) s).table = s.table := by
          simpa [step, hget] using hsame
        exact ⟨r, htable ▸ hr, hscope.trans next_scope.symm, hexpires⟩
  | approve | deny | expire => exact hold c hc

theorem step_creating :
    ∀ c ∈ (step sha256 ev s).creations, (c.action.row sha256 c.now).Fresh sha256 := by
  intro c hc
  cases ev with
  | create sub call =>
    simp only [step] at hc
    split at hc
    · rename_i a ha
      obtain hc | hc := List.mem_append.1 hc
      · exact hs.creating c hc
      · rw [List.mem_singleton.1 hc]
        exact fresh_of_persistPendingAction ha _
    · exact hs.creating c hc
  | createNext i call =>
    simp only [step] at hc
    split at hc
    · rename_i c₀ hget
      obtain hc | rfl := List.mem_or_eq_of_mem_set hc
      · exact hs.creating c hc
      · obtain ⟨_, _, heq, -⟩ := @Creation.next_cases sha256 call c₀ s.table
        rw [heq]
        exact hs.creating c₀ (List.mem_of_getElem? hget)
    · exact hs.creating c hc
  | consume | approve | deny | expire => exact hs.creating c hc
  | consumeNext =>
    simp only [step] at hc
    split at hc <;> exact hs.creating c hc

theorem Sound.step : (step sha256 ev s).Sound sha256 where
  keyed r hr hstatus := by
    obtain ⟨r₀, hr₀, hmoves⟩ | ⟨-, hfresh⟩ := (step_change hs ev).row (Table.mem_iff_get?.1 hr)
    · have heq := hmoves.eq_of_pending hstatus
      subst heq
      exact hs.keyed r (Table.get?_eq_some_iff.1 hr₀).1 hstatus
    · exact hfresh
  unconsumed r hr hexpires := by
    obtain ⟨r₀, hr₀, hmoves⟩ | ⟨-, hfresh⟩ := (step_change hs ev).row (Table.mem_iff_get?.1 hr)
    · exact hmoves.ne_consumed (hs.unconsumed r₀ (Table.get?_eq_some_iff.1 hr₀).1) hexpires
    · rw [hfresh.status]
      intro h
      cases h
  creating := step_creating hs ev
  consuming := step_consuming hs ev

end

end PendingStore

/-! ## Approvals and their use -/

/-- An approval for the scope that is not used up. -/
def usable (scope : CallScope) (r : PendingAction) : Bool :=
  r.toCallScope = scope && r.status = .approved

namespace PendingTable

variable {scope : CallScope} {id now : String}

theorem count_setStatus_le {status : PendingStatus} (hstatus : status ≠ .approved) :
    (t.setStatus p status now decidedBy reasonCode).2.count (usable scope) ≤
      t.count (usable scope) := by
  simp only [Table.count, setStatus, UniqueTable.update, Table.update, List.countP_map]
  refine List.countP_mono_left fun r _ hr => ?_
  simp only [Function.comp_apply] at hr
  split_ifs at hr
  · simp [usable, PendingAction.settle, hstatus] at hr
  · exact hr

theorem count_setStatus (hp : ∀ r, p r → r.id = id)
    (t : PendingTable) (status : PendingStatus) (now : String) (decidedBy reasonCode : Option String)
    (q : PendingAction → Bool) :
    (t.setStatus p status now decidedBy reasonCode).2.count q + ((t.get? id).any q).toNat =
      t.count q +
        (((t.get? id).map fun r =>
          if p r then r.settle status now decidedBy reasonCode else r).any q).toNat := by
  rw [← t.get?_setStatus p status now decidedBy reasonCode id]
  exact t.toTable.count_update_key (f := .settle status now decidedBy reasonCode) (fun _ => rfl) hp q

/-- An approval adds at most the one that it gives. -/
theorem count_setPendingActionApproved (t : PendingTable) (id decidedBy now : String)
    (time : Time) (scope : CallScope) :
    (t.setPendingActionApproved id decidedBy now time).2.count (usable scope) ≤
      t.count (usable scope) +
        ((t.get? id).any (fun r => r.toCallScope = scope && r.status = .pending) &&
          ((t.setPendingActionApproved id decidedBy now time).2.get? id).any
            fun r => r.status = .approved).toNat := by
  have hid : ∀ r, approvable id time r → r.id = id := fun r hr => by
    simp only [approvable, Bool.and_eq_true, decide_eq_true_eq] at hr
    exact hr.1.1
  have hbalance := count_setStatus hid t .approved now (some decidedBy) none (usable scope)
  rw [setPendingActionApproved, get?_setStatus]
  cases hr : t.get? id with
  | none =>
    simp only [hr, Option.map_none, Option.any_none] at hbalance ⊢
    omega
  | some r =>
    simp only [hr, Option.map_some, Option.any_some] at hbalance ⊢
    split_ifs at hbalance ⊢ with hp
    · have hpending : r.status = .pending := by
        simp only [approvable, Bool.and_eq_true, decide_eq_true_eq] at hp
        exact hp.1.2
      by_cases hscope : r.toCallScope = scope
      all_goals
        simp [usable, PendingAction.settle, hpending, hscope] at hbalance ⊢
        omega
    · omega

/-- Consuming an approval of the scope takes it away. -/
theorem count_markConsumed {r : PendingAction} (hr : t.get? id = some r)
    (hscope : r.toCallScope = scope) (haffected : (t.markConsumed id now).1) :
    (t.markConsumed id now).2.count (usable scope) + 1 = t.count (usable scope) := by
  have hin : ∀ r, isIn id .approved r → r.id = id ∧ r.status = .approved := fun r hr => by
    simpa [isIn] using hr
  have hbalance := count_setStatus (fun r hr => (hin r hr).1) t .consumed now none none
    (usable scope)
  -- the row that was affected is the one under the id
  obtain ⟨r₀, hmem, hr₀⟩ := List.any_eq_true.1 haffected
  obtain ⟨hid, hstatus⟩ := hin r₀ hr₀
  obtain rfl : r = r₀ := Option.some.inj (hr.symm.trans (Table.get?_eq_some_iff.2 ⟨hmem, hid⟩))
  rw [markConsumed]
  simpa [hr, hr₀, usable, PendingAction.settle, hscope, hstatus] using hbalance

end PendingTable

theorem Consumption.of_consumed (hc : c.Selected t)
    (hbefore : c.consumed? = none) (hafter : (c.next call t).1.consumed?.isSome) :
    ∃ id r, t.get? id = some r ∧ r.toCallScope = c.scope ∧ (t.markConsumed id call.now).1 ∧
      (c.next call t).2 = (t.markConsumed id call.now).2 := by
  obtain ⟨_, -, heq⟩ | ⟨id, _, hphase, haffected, heq⟩ | ⟨_, heq, hnone | hphase⟩ :=
    c.next_cases call t
  · simp [heq, goto, consumed?] at hafter
  · obtain ⟨r, hr, hscope, -⟩ := hc id hphase
    exact ⟨id, r, hr, hscope, haffected, by rw [heq]⟩
  · simp [heq, hnone] at hafter
  · simp [heq, goto, ← hphase, hbefore] at hafter

namespace PendingStore

/-- The step gives an approval to a row of the scope. -/
def approves (sha256 : Sha256) (scope : CallScope) : PendingEvent → PendingStore → Bool
  | .approve id decidedBy call, s =>
    (s.table.get? id).any (fun r => r.toCallScope = scope && r.status = .pending) &&
      ((step sha256 (.approve id decidedBy call) s).table.get? id).any
        fun r => r.status = .approved
  | _, _ => false

/-- The step makes a call of `ConsumeApprovedAction` for the scope return an action. -/
def consumes (sha256 : Sha256) (scope : CallScope) : PendingEvent → PendingStore → Bool
  | .consumeNext i call, s =>
    s.consumptions[i]?.any (fun c => c.scope = scope && c.consumed?.isNone) &&
      (step sha256 (.consumeNext i call) s).consumptions[i]?.any fun c => c.consumed?.isSome
  | _, _ => false

theorem step_balance (scope : CallScope) (ev : PendingEvent) (s : PendingStore)
    (hs : s.Sound sha256) :
    (step sha256 ev s).table.count (usable scope) + (consumes sha256 scope ev s).toNat ≤
      s.table.count (usable scope) + (approves sha256 scope ev s).toNat := by
  cases ev with
  | create =>
    simp only [step, consumes, Bool.toNat_false]
    split <;> exact Nat.le_add_right _ _
  | createNext i call =>
    simp only [consumes, approves, Bool.toNat_false, Nat.add_zero, step]
    split
    · rename_i c hc
      obtain ⟨_, _, heq, rfl | hins⟩ := @Creation.next_cases sha256 call c s.table
      · rw [heq]
      · rw [heq]
        have hfresh := (hs.creating c (List.mem_of_getElem? hc)).status
        simp [Table.count, (Table.rows_of_insert hins).2, usable, hfresh]
    · exact le_rfl
  | consume => exact Nat.le_add_right _ _
  | consumeNext i call =>
    cases hget : s.consumptions[i]? with
    | none => simp [step, consumes, approves, hget]
    | some c =>
      have hc := hs.consuming c (List.mem_of_getElem? hget)
      have hlt : i < s.consumptions.length := (List.getElem?_eq_some_iff.1 hget).1
      have htable : (step sha256 (.consumeNext i call) s).table = (c.next call s.table).2 := by
        simp [step, hget]
      have hcall : (step sha256 (.consumeNext i call) s).consumptions[i]? =
          some (c.next call s.table).1 := by
        simp only [step, hget]
        exact List.getElem?_set_self hlt
      simp only [consumes, approves, hget, hcall, htable, Option.any_some, Bool.toNat_false,
        Nat.add_zero]
      by_cases hdone : (decide (c.scope = scope) && c.consumed?.isNone &&
          (c.next call s.table).1.consumed?.isSome)
      · obtain ⟨⟨hscope, hbefore⟩, hafter⟩ :
            (c.scope = scope ∧ c.consumed? = none) ∧ (c.next call s.table).1.consumed?.isSome := by
          simpa using hdone
        obtain ⟨id, r, hr, hrscope, haffected, hmarked⟩ := c.of_consumed hc hbefore hafter
        rw [hdone, hmarked, Bool.toNat_true,
          count_markConsumed hr (hrscope.trans hscope) haffected]
      · rw [Bool.eq_false_iff.2 hdone, Bool.toNat_false, Nat.add_zero]
        obtain hsame | ⟨id, r, -, -, hmarked⟩ := c.next_table call hc
        · rw [hsame]
        · rw [hmarked]
          exact count_setStatus_le (by decide)
  | approve id decidedBy call =>
    simp only [consumes, Bool.toNat_false, Nat.add_zero, approves]
    exact exec_table (P := fun t => t.count (usable scope) ≤ _ + (_ && (t.get? id).any _).toNat)
      call _ (Nat.le_add_right _ _) (count_setPendingActionApproved ..)
  | deny id call | expire call =>
    simp only [consumes, approves, Bool.toNat_false, Nat.add_zero]
    exact exec_table (P := fun t => t.count (usable scope) ≤ _) call _ le_rfl
      (count_setStatus_le (by decide))

/-- An open row without an expiry. -/
def openConnector (scope : CallScope) (r : PendingAction) : Bool :=
  r.toCallScope = scope && r.status = .pending && r.expiresAt.isNone

/-- Open rows of one scope hold one key, which is unique. -/
theorem Sound.count_openConnector (hs : s.Sound sha256) (scope : CallScope) :
    s.table.count (openConnector scope) ≤ 1 := by
  refine (List.countP_mono_left fun r hr h => ?_).trans
    (s.table.count_col_le_one (scopeKey sha256 scope false))
  simp only [openConnector, Bool.and_eq_true, decide_eq_true_eq, Option.isNone_iff_eq_none] at h
  obtain ⟨⟨hscope, hstatus⟩, hexpires⟩ := h
  simp [(hs.keyed r hr hstatus).key, hscope, hexpires]

/-- A row that was denied, or has an expiry, is not consumed in any later state. -/
def Withheld (id : String) (s : PendingStore) : Prop :=
  ∃ r, s.table.get? id = some r ∧
    (r.status = .denied ∨ r.expiresAt.isSome ∧ r.status ≠ .consumed)

theorem Withheld.step (hs : s.Sound sha256) (h : s.Withheld id)
    (ev : PendingEvent) : (step sha256 ev s).Withheld id := by
  obtain ⟨r, hr, hwithheld⟩ := h
  obtain ⟨r', hr', hmoves⟩ := (step_change hs ev).keeps hr
  refine ⟨r', hr', ?_⟩
  obtain hdenied | ⟨hexpires, hne⟩ := hwithheld
  · exact .inl (hmoves.denied hdenied)
  · have hexpires' : r'.expiresAt.isSome := hmoves.expires ▸ hexpires
    exact .inr ⟨hexpires', hmoves.ne_consumed (fun _ => hne) hexpires'⟩

end PendingStore

/-! ## Whole runs -/

section Runs

variable (sha256)

/-- In every interleaving of calls that starts without pending actions, the calls that consume
an action of a scope are at most as many as the approvals given to rows with that scope; at
most one open row of the scope has no expiry; and no row that was denied, by an operator or
because it expired, or that has an expiry is consumed later. -/
theorem one_shot_approvals (events : List PendingEvent) (scope : CallScope) :
    let step := PendingStore.step sha256
    let s := Trace.run step events PendingStore.empty
    Trace.count step (PendingStore.consumes sha256 scope) events PendingStore.empty ≤
        Trace.count step (PendingStore.approves sha256 scope) events PendingStore.empty ∧
      s.table.count (PendingStore.openConnector scope) ≤ 1 ∧
      ∀ (later : List PendingEvent) (id : String) (r r' : PendingAction),
        s.table.get? id = some r → (r.status = .denied ∨ r.expiresAt.isSome) →
        (Trace.run step later s).table.get? id = some r' → r'.status ≠ .consumed := by
  intro step s
  have hsound : s.Sound sha256 :=
    Trace.invariant_of_step (fun ev s hs => hs.step ev) events sound_empty
  refine ⟨?_, hsound.count_openConnector scope, ?_⟩
  · have hbalance := @Trace.balance_le _ _ step (PendingStore.Sound sha256)
      (fun s => s.table.count (usable scope)) _ _ (fun ev s hs => hs.step ev)
      (fun ev s hs => step_balance scope ev s hs) events _ sound_empty
    have hempty : empty.table.count (usable scope) = 0 := rfl
    omega
  · intro later id r r' hr hrow hr'
    have hwithheld : s.Withheld id := by
      refine ⟨r, hr, hrow.imp_right fun hexpires => ⟨hexpires, ?_⟩⟩
      exact hsound.unconsumed r (Table.get?_eq_some_iff.1 hr).1 hexpires
    obtain ⟨-, _, hr₁, hfinal⟩ := @Trace.invariant_of_step _ _ step
      (fun s => s.Sound sha256 ∧ s.Withheld id) (fun ev s h => ⟨h.1.step ev, h.2.step h.1 ev⟩)
      later s ⟨hsound, hwithheld⟩
    cases hr'.symm.trans hr₁
    obtain hdenied | ⟨-, hne⟩ := hfinal
    · rw [hdenied]
      intro h
      cases h
    · exact hne

/-- In every interleaving, each step keeps every row with its scope and expiry, and changes its
status only from pending to approved or denied, or from approved to consumed if it has no expiry. -/
theorem pending_rows_move (events : List PendingEvent) :
    Trace.Every (PendingStore.step sha256) (fun ev s => ∀ id r, s.table.get? id = some r →
      ∃ r', (PendingStore.step sha256 ev s).table.get? id = some r' ∧ RowMoves r r') events
      PendingStore.empty :=
  @Trace.every_of_invariant _ _ _ (fun _ _ => True) _ (PendingStore.Sound sha256)
    (fun ev _ _ hs => hs.step ev) (fun ev _ _ hs _ _ hr => (step_change hs ev).keeps hr) _ _
    (Trace.every_of_mem fun _ _ => trivial) sound_empty

end Runs

end Runkite
