import Runkite.ArgsDigest
import Runkite.OneShot
import Runkite.ToolGate

/-!
# What a forwarded tool call rests on

A `tools/call` that is forwarded should rest on a decision on its own names and arguments, on a
break-glass window or on an approval of exactly its scope (`Gate.Justified`). The decision may
come from the cache, so what matters is who writes there : the tool call itself and the
governance endpoint, which evaluate the full arguments, and the operator's approval, which
evaluates the stored display copy under the digest of the full arguments.

`tool_gate_sound` is the property for every sequence of requests in which an action is approved
only if its display copy hides nothing (`PendingAction.unhidden`) and names are free of NUL.
`forwarded_from_display_copy` is a call that is forwarded without any of the three because an
approval evaluated a copy with a member left out.
-/

open Binary64 (Decimal)
open Json (Members Text Value traverseMembers)
open Transaction (query write)

namespace Runkite

open Engine

/-! ## The property -/

/-- The display copy of an action is what its digest is the digest of. -/
def PendingAction.unhidden (sha256 : Sha256) (a : PendingAction) : Bool :=
  a.argsDigest = digestArgs sha256 (.object ((unmarshalPendingArgs a.args).getD []))

/-- The names are free of the separator, and the arguments are among the known ones. -/
def PolicyInput.meets (known : Value Decimal → Bool) (i : PolicyInput) : Bool :=
  i.plain && i.args.all known

/-- The condition on a request in the state that it meets. -/
def GateEvent.meets (cfg : GateConfig) (known : Value Decimal → Bool) : GateEvent → Gate → Bool
  | .toolsCall req env, _ => (req.input cfg env).all (PolicyInput.meets known)
  | .governanceDecide req env, _ =>
    match req.input cfg env with
    | .ok i => i.meets known
    | .error _ => true
  | .approve id _ _, s =>
    (s.pending.get? id).all fun a => a.input.meets known && a.unhidden cfg.sha256
  | _, _ => true

namespace Gate

variable (cfg : GateConfig) (env : GateEnv)

/-- The call with the input uses up an approval of exactly its scope. -/
def Consumes (i : PolicyInput) (before after : PendingTable) : Prop :=
  ∃ id r r', before.get? id = some r ∧ r.status = .approved ∧ r.toCallScope = i.scope ∧
    after.get? id = some r' ∧ r'.status = .consumed

/-- The uncached decision on the input is to allow it, with the webhook's reply to an evaluation
of the same call. -/
def Allowed (i : PolicyInput) (s : Gate) : Prop :=
  ∃ j reply, (j, reply) ∈ s.evaluated ∧ SameCall i j ∧
    (cfg.engine.uncached i reply).effect = .allow

/-- A call that is forwarded is allowed, covered by a window, or uses up an approval. -/
def Justified : GateEvent → Gate → Prop
  | .toolsCall req env, s => (s.toolsCall cfg env req).1 = .forwarded →
    ∃ i, req.input cfg env = some i ∧
      (Allowed cfg i (s.toolsCall cfg env req).2 ∨ s.bypassed env i = true ∨
        Consumes i s.pending (s.toolsCall cfg env req).2.pending)
  | _, _ => True

end Gate

/-! ## Decisions -/

variable {cfg : GateConfig} {known : Value Decimal → Bool} {env : GateEnv} {i : PolicyInput}
  {s s' : Gate} {t : PendingTable} {req : ToolsCall}

theorem Gate.decide_cases (cfg : GateConfig) (env : GateEnv) (i : PolicyInput) (s : Gate) :
    s.decide cfg env i = (missingBindingDecision, s) ∨
    missingBinding i = false ∧ (∃ dec, (cacheKey i, dec) ∈ s.cache ∧
      s.decide cfg env i = (cfg.engine.applyMandatoryHITL i dec, s)) ∨
    missingBinding i = false ∧ (∃ cache,
      (∀ entry ∈ cache, entry ∈ s.cache ∨ entry = (cacheKey i, cfg.engine.evaluate i env.reply)) ∧
      s.decide cfg env i = (cfg.engine.applyMandatoryHITL i (cfg.engine.evaluate i env.reply),
        { s with cache := cache, evaluated := s.evaluated ++ [(i, env.reply)] })) := by
  unfold Gate.decide policyDecide evaluates
  rcases cfg.engine.decide_cases i env.reply s.cache with ⟨hbinding, heq⟩ |
    ⟨hbinding, dec, hhit, hmem, heq⟩ | ⟨hbinding, hhit, cache, hcache, heq⟩
  · exact .inl (by simp [heq, hbinding, applyMandatoryHITL, missingBindingDecision])
  · exact .inr (.inl ⟨hbinding, dec, hmem, by simp [heq, hbinding, hhit]⟩)
  · exact .inr (.inr ⟨hbinding, cache, hcache, by simp [heq, hbinding, hhit]⟩)

/-- Every allowance in the cache was evaluated under its key, for a tool call with its full
arguments. -/
def Gate.CacheSound (cfg : GateConfig) (known : Value Decimal → Bool) (s : Gate) : Prop :=
  ∀ key dec, (key, dec) ∈ s.cache → dec.effect = .allow → ∃ j reply, (j, reply) ∈ s.evaluated ∧
    cacheKey j = key ∧ cfg.engine.evaluate j reply = dec ∧
    (j.stage = .toolCall → j.Bound cfg.sha256 known)

theorem Gate.CacheSound.decide (h : s.CacheSound cfg known)
    (hi : i.stage = .toolCall → i.Bound cfg.sha256 known) :
    (s.decide cfg env i).2.CacheSound cfg known := by
  rcases s.decide_cases cfg env i with heq | ⟨-, dec, -, heq⟩ | ⟨-, cache, hcache, heq⟩
  · rw [heq]
    exact h
  · rw [heq]
    exact h
  · rw [heq]
    intro key dec hmem hallow
    rcases hcache _ hmem with hold | hnew
    · obtain ⟨j, reply, hj, hrest⟩ := h key dec hold hallow
      exact ⟨j, reply, List.mem_append_left _ hj, hrest⟩
    · obtain ⟨rfl, rfl⟩ := Prod.mk.inj hnew
      exact ⟨i, env.reply, List.mem_append_right _ List.mem_cons_self, rfl, rfl, hi⟩

/-- Without a window the check is the decision. -/
theorem Gate.checkConnectorPolicy_of_not_bypassed (h : s.bypassed env i = false) :
    s.checkConnectorPolicy cfg env i = (((s.decide cfg env i).1,
      Decidable.decide ((s.decide cfg env i).1.effect ≠ .allow)), (s.decide cfg env i).2) := by
  simp [Gate.checkConnectorPolicy, h]

theorem Gate.CacheSound.checkConnectorPolicy (h : s.CacheSound cfg known)
    (hi : i.stage = .toolCall → i.Bound cfg.sha256 known) :
    (s.checkConnectorPolicy cfg env i).2.CacheSound cfg known := by
  cases hwindow : s.bypassed env i with
  | true =>
    rw [Gate.checkConnectorPolicy, if_pos hwindow]
    exact h
  | false =>
    rw [Gate.checkConnectorPolicy_of_not_bypassed hwindow]
    dsimp only
    exact h.decide hi

/-- Only an allowance passes the mandatory rules as one. -/
theorem Engine.effect_of_applyMandatoryHITL {e : Engine} {dec : PolicyDecision}
    (h : (e.applyMandatoryHITL i dec).effect = .allow) : dec.effect = .allow := by
  unfold applyMandatoryHITL at h
  split_ifs at h with hchanged
  · exact h
  · simp only [Bool.or_eq_true, decide_eq_true_eq, not_or, not_not] at hchanged
    exact hchanged.2

/-- A decision to allow, cached or not, is the uncached one. -/
theorem Gate.allowed_of_decide (hsha : NoCollision cfg.sha256 known) (h : s.CacheSound cfg known)
    (hstage : i.stage = .toolCall) (hi : i.Bound cfg.sha256 known)
    (hallow : (s.decide cfg env i).1.effect = .allow) :
    Gate.Allowed cfg i (s.decide cfg env i).2 := by
  rcases s.decide_cases cfg env i with heq | ⟨hbinding, dec, hmem, heq⟩ | ⟨hbinding, cache, -, heq⟩
  · rw [heq] at hallow
    cases hallow
  · -- the entry was evaluated for the same call, so an evaluation now gives the same
    rw [heq] at hallow ⊢
    obtain ⟨j, reply, hj, hkey, rfl, hbound⟩ :=
      h _ _ hmem (effect_of_applyMandatoryHITL hallow)
    have hsame : SameCall i j := sameCall_of_cacheKey_eq hsha hi
      (hbound ((stage_of_cacheKey_eq hkey).trans hstage)) hkey.symm
    refine ⟨j, reply, hj, hsame, ?_⟩
    rw [uncached, hbinding, hsame.evaluate_eq]
    exact hallow
  · rw [heq] at hallow ⊢
    obtain ⟨v, hv, hkeyed, -, -⟩ := hi.args
    have hargs : SameArgs (predicateArgs i) (predicateArgs i) := by
      simp only [predicateArgs, hv]
      exact ⟨hkeyed, hkeyed, rfl⟩
    refine ⟨i, env.reply, List.mem_append_right _ List.mem_cons_self,
      ⟨rfl, rfl, rfl, rfl, rfl, rfl, hargs⟩, ?_⟩
    rw [uncached, hbinding]
    exact hallow

/-! ## Approvals -/

theorem PendingTable.status_of_markConsumed {id now : String} {r : PendingAction}
    (hr : t.get? id = some r) (h : (t.markConsumed id now).1) : r.status = .approved := by
  obtain ⟨_, hr', hin⟩ := List.any_eq_true.1 h
  simp only [PendingTable.isIn, Bool.and_eq_true, decide_eq_true_eq] at hin
  have hget := Table.mem_iff_get?.1 hr'
  rw [hin.1, hr] at hget
  rw [Option.some.inj hget]
  exact hin.2

/-- The first statement of a consumption only selects. -/
theorem Consumption.next_start (call : StoreCall) (scope : CallScope) (t : PendingTable) :
    ((Consumption.start scope).next call t).2 = t ∧
      ((Consumption.start scope).next call t).1.consumed? = none := by
  unfold Consumption.start
  split_ifs with hdigest
  · exact ⟨rfl, rfl⟩
  · unfold Consumption.next
    dsimp only
    split <;> exact ⟨rfl, rfl⟩

/-- A call that gets an id has consumed the approved action of its scope under that id. -/
theorem Gate.of_consumeApprovedAction {scope : CallScope}
    (h : (Gate.consumeApprovedAction env scope t).1.isSome) :
    ∃ id r r', t.get? id = some r ∧ r.status = .approved ∧ r.toCallScope = scope ∧
      (Gate.consumeApprovedAction env scope t).2.get? id = some r' ∧ r'.status = .consumed := by
  obtain ⟨htable, hnone⟩ := Consumption.next_start (env.call 0) scope t
  have hscope : ((Consumption.start scope).next (env.call 0) t).1.scope = scope := by
    rw [Consumption.next_scope]
    rfl
  have hselected : ((Consumption.start scope).next (env.call 0) t).1.Selected t := by
    intro id hphase
    obtain ⟨-, r, hr, hrow, hexpires⟩ := Consumption.of_next_update hphase
    exact ⟨r, hr, hrow.trans hscope.symm, hexpires⟩
  unfold Gate.consumeApprovedAction at h ⊢
  dsimp only at h ⊢
  rw [htable] at h ⊢
  obtain ⟨id, r, hr, hrow, hmarks, hmarked⟩ := Consumption.of_consumed hselected hnone h
  have hstatus := PendingTable.status_of_markConsumed hr hmarks
  refine ⟨id, r, r.settle .consumed (env.call 1).now none none, hr, hstatus, hrow.trans hscope,
    ?_, rfl⟩
  have hin : PendingTable.isIn id .approved r := by
    simp [PendingTable.isIn, (Table.get?_eq_some_iff.1 hr).2, hstatus]
  rw [hmarked, PendingTable.markConsumed, PendingTable.get?_setStatus, hr, Option.map_some,
    if_pos hin]

theorem Gate.consumes_of_tryConsumePendingCapability
    (h : (s.tryConsumePendingCapability env i).1) :
    Gate.Consumes i s.pending (s.tryConsumePendingCapability env i).2.pending := by
  unfold Gate.tryConsumePendingCapability at h ⊢
  split_ifs at h ⊢
  exact Gate.of_consumeApprovedAction h

/-! ## What leaves the cache alone -/

/-- The cache and the history of evaluations are the same. -/
structure Gate.SamePolicy (s s' : Gate) : Prop where
  cache : s'.cache = s.cache
  evaluated : s'.evaluated = s.evaluated

namespace Gate

theorem SamePolicy.cacheSound (hsame : SamePolicy s s') (h : s.CacheSound cfg known) :
    s'.CacheSound cfg known := by
  unfold CacheSound
  rw [hsame.cache, hsame.evaluated]
  exact h

theorem SamePolicy.allowed (hsame : SamePolicy s s') (h : Allowed cfg i s) : Allowed cfg i s' := by
  unfold Allowed
  rw [hsame.evaluated]
  exact h

theorem samePolicy_tryConsumePendingCapability (env : GateEnv) (i : PolicyInput) (s : Gate) :
    SamePolicy s (s.tryConsumePendingCapability env i).2 := by
  unfold tryConsumePendingCapability
  split_ifs <;> exact ⟨rfl, rfl⟩

theorem samePolicy_persist (cfg : GateConfig) (env : GateEnv) (i : PolicyInput)
    (dec : PolicyDecision) (embedded : Bool) (s : Gate) :
    SamePolicy s (s.persist cfg env i dec embedded).2 := by
  unfold persist
  dsimp only
  split <;> exact ⟨rfl, rfl⟩

theorem refuse_ne_forwarded (i : PolicyInput) (dec : PolicyDecision) (s : Gate) :
    (s.refuse cfg env i dec).1 ≠ .forwarded := by
  unfold refuse
  by_cases hpending : dec.effect = .pending
  · rw [if_pos hpending]
    dsimp only
    split <;> exact nofun
  · rw [if_neg hpending]
    exact nofun

theorem samePolicy_refuse (cfg : GateConfig) (env : GateEnv) (i : PolicyInput)
    (dec : PolicyDecision) (s : Gate) : SamePolicy s (s.refuse cfg env i dec).2 := by
  have hpersist := samePolicy_persist cfg env i dec false s
  unfold refuse
  by_cases hpending : dec.effect = .pending
  · rw [if_pos hpending]
    dsimp only
    split <;> rename_i heq <;> rwa [heq] at hpersist
  · rw [if_neg hpending]
    exact ⟨rfl, rfl⟩

theorem samePolicy_exec (call : StoreCall) (f : PendingTable → Bool × PendingTable) (s : Gate) :
    SamePolicy s (s.exec call f).2 := ⟨rfl, rfl⟩

theorem samePolicy_writeGovernancePending (i : PolicyInput) (dec : PolicyDecision) (s : Gate) :
    SamePolicy s (s.writeGovernancePending cfg env i dec).2 := by
  unfold writeGovernancePending
  split_ifs
  · exact ⟨rfl, rfl⟩
  · cases hexpire : s.expire env with
    | mk result s₁ =>
      have hfirst : SamePolicy s s₁ := by
        have := samePolicy_exec (env.call 1)
          (fun t => t.expireGovernancePending (env.call 1).now (env.call 1).time) s
        rwa [← Gate.expire, hexpire] at this
      cases result with
      | error => exact hfirst
      | ok _ =>
        have hsecond := samePolicy_persist cfg env i dec true s₁
        dsimp only
        split <;> rename_i heq <;> rw [heq] at hsecond <;>
          exact ⟨hsecond.cache.trans hfirst.cache, hsecond.evaluated.trans hfirst.evaluated⟩

theorem affected_snd (id reason : String) (r : Except StoreError Bool × Gate) :
    (affected id reason r).2 = r.2 := by
  obtain ⟨_ | _ | _, s⟩ := r <;> rfl

end Gate

/-! ## Inputs -/

theorem bound_of_bindArgsStrict {raw : Text} {b : BoundArgs} {oversize : List String}
    (h : bindArgsStrict cfg.sha256 oversize raw = some b) (hargs : i.args = some b.args)
    (hdigest : i.argsDigest = b.digest) (hmeets : i.meets known) :
    i.Bound cfg.sha256 known := by
  obtain ⟨v, hv, rfl⟩ := Option.map_eq_some_iff.1 h
  simp only [PolicyInput.meets, Bool.and_eq_true, hargs, Option.all_some] at hmeets
  exact ⟨hmeets.1, v, hargs, keyed_of_parseCallArguments hv, hmeets.2, hdigest⟩

theorem ToolsCall.bound (h : req.input cfg env = some i)
    (hmeets : i.meets known) : i.stage = .toolCall ∧ i.Bound cfg.sha256 known := by
  unfold ToolsCall.input at h
  split at h
  · obtain ⟨b, hb, rfl⟩ := Option.map_eq_some_iff.1 h
    exact ⟨rfl, bound_of_bindArgsStrict hb rfl rfl hmeets⟩
  · obtain ⟨b, hb, rfl⟩ := Option.map_eq_some_iff.1 h
    exact ⟨rfl, bound_of_bindArgsStrict hb rfl rfl hmeets⟩
  · cases h

theorem GovernanceDecide.bound {req : GovernanceDecide} (h : req.input cfg env = .ok i)
    (hmeets : i.meets known) : i.Bound cfg.sha256 known := by
  unfold GovernanceDecide.input at h
  dsimp only at h
  split_ifs at h
  split at h
  · cases h
  · rename_i b hb
    cases h
    exact bound_of_bindArgsStrict hb rfl rfl hmeets

theorem keyed_unmarshalPendingArgs {text : Text} {ms : Members Decimal}
    (h : unmarshalPendingArgs text = some ms) : (Value.object ms).Keyed := by
  unfold unmarshalPendingArgs at h
  split at h
  · rename_i members
    split at h
    · rename_i m rest hread
      cases h
      have hdecoded : Json.traverse some Members.lastWins (.object members) =
          some (.object (m :: rest)) := by
        obtain ⟨_, hws, hwins⟩ := Option.map_eq_some_iff.1 hread
        simp [Json.traverse, hws, hwins]
      exact Json.keyed_traverse hdecoded
    · cases h
  · cases h

theorem PendingAction.bound {a : PendingAction} (hmeets : a.input.meets known)
    (hunhidden : a.unhidden cfg.sha256) : a.input.Bound cfg.sha256 known := by
  have hkeyed : (Value.object ((unmarshalPendingArgs a.args).getD [])).Keyed := by
    cases hread : unmarshalPendingArgs a.args with
    | none => exact ⟨List.nodup_nil, trivial⟩
    | some => exact keyed_unmarshalPendingArgs hread
  simp only [PolicyInput.meets, Bool.and_eq_true, PendingAction.input, Option.all_some] at hmeets
  exact ⟨hmeets.1, _, rfl, hkeyed, hmeets.2, of_decide_eq_true hunhidden⟩

/-! ## Requests -/

namespace Gate

/-- A call after the check of its input : what it did to the cache, and what forwards it. -/
theorem toolsCall_of_input {i : PolicyInput} (hinput : req.input cfg env = some i) :
    (s.toolsCall cfg env req = (.retrieved, s) ∨
      SamePolicy (s.checkConnectorPolicy cfg env i).2 (s.toolsCall cfg env req).2) ∧
    ((s.toolsCall cfg env req).1 = .forwarded → (s.checkConnectorPolicy cfg env i).1.2 = false ∨
      Consumes i (s.checkConnectorPolicy cfg env i).2.pending
        (s.toolsCall cfg env req).2.pending) := by
  unfold toolsCall
  by_cases hretrieve : req.tool = retrieveToolName
  · rw [if_pos hretrieve]
    exact ⟨.inl rfl, nofun⟩
  · rw [if_neg hretrieve, hinput]
    dsimp only
    obtain ⟨⟨dec, deny⟩, s₁⟩ := s.checkConnectorPolicy cfg env i
    dsimp only
    have hsame := samePolicy_tryConsumePendingCapability env i s₁
    have huse := @consumes_of_tryConsumePendingCapability env i s₁
    by_cases htry : (!deny || Decidable.decide (dec.effect = .pending))
    · rw [if_pos htry]
      generalize s₁.tryConsumePendingCapability env i = result at hsame huse ⊢
      obtain ⟨approved, s₂⟩ := result
      dsimp only at hsame huse ⊢
      by_cases hrefused : (deny && !approved)
      · rw [if_pos hrefused]
        have hrefuse := samePolicy_refuse cfg env i dec s₂
        exact ⟨.inr ⟨hrefuse.cache.trans hsame.cache, hrefuse.evaluated.trans hsame.evaluated⟩,
          fun h => absurd h (refuse_ne_forwarded i dec s₂)⟩
      · rw [if_neg hrefused]
        refine ⟨.inr hsame, fun _ => ?_⟩
        cases deny with
        | false => exact .inl rfl
        | true => exact .inr (huse (by simpa using hrefused))
    · rw [if_neg htry]
      dsimp only
      have hdeny : deny := by
        cases deny with
        | true => rfl
        | false => simp at htry
      rw [hdeny, Bool.not_false, Bool.and_self, if_pos rfl]
      exact ⟨.inr (samePolicy_refuse cfg env i dec s₁), fun h => absurd h (refuse_ne_forwarded i dec s₁)⟩

theorem toolsCall_of_no_input (hinput : req.input cfg env = none) :
    (s.toolsCall cfg env req).2 = s ∧ (s.toolsCall cfg env req).1 ≠ .forwarded := by
  unfold toolsCall
  split_ifs
  · exact ⟨rfl, nofun⟩
  · rw [hinput]
    exact ⟨rfl, nofun⟩

theorem CacheSound.toolsCall (h : s.CacheSound cfg known)
    (hmeets : (GateEvent.toolsCall req env).meets cfg known s) :
    (s.toolsCall cfg env req).2.CacheSound cfg known := by
  cases hinput : req.input cfg env with
  | none =>
    rw [(toolsCall_of_no_input hinput).1]
    exact h
  | some i =>
    simp only [GateEvent.meets, hinput, Option.all_some] at hmeets
    have hcheck : (s.checkConnectorPolicy cfg env i).2.CacheSound cfg known :=
      h.checkConnectorPolicy fun _ => (ToolsCall.bound hinput hmeets).2
    rcases (toolsCall_of_input hinput).1 with hretrieved | hsame
    · rw [hretrieved]
      exact h
    · exact hsame.cacheSound hcheck

theorem CacheSound.governanceDecide {req : GovernanceDecide} (h : s.CacheSound cfg known)
    (hmeets : (GateEvent.governanceDecide req env).meets cfg known s) :
    (s.governanceDecide cfg env req).2.CacheSound cfg known := by
  unfold Gate.governanceDecide
  cases hinput : req.input cfg env with
  | error => exact h
  | ok i =>
    simp only [GateEvent.meets, hinput] at hmeets
    have hdecide : (s.decide cfg env i).2.CacheSound cfg known :=
      h.decide fun _ => GovernanceDecide.bound hinput hmeets
    dsimp only
    generalize s.decide cfg env i = result at hdecide ⊢
    obtain ⟨dec, s₁⟩ := result
    dsimp only at hdecide ⊢
    split_ifs
    · exact (samePolicy_writeGovernancePending i dec s₁).cacheSound hdecide
    · exact hdecide

theorem awaiting_get? {id : String} {a : PendingAction} (h : s.awaiting env id = .ok a) :
    s.pending.get? id = some a := by
  unfold awaiting at h
  split at h
  · cases h
  · rename_i a' hquery
    split_ifs at h
    cases h
    have hget := Transaction.query_ok hquery
    unfold PendingTable.getPendingAction at hget
    split at hget
    · rename_i r hr
      rw [hr, Except.ok.inj hget]
    · cases hget

theorem CacheSound.adminApprove {id decidedBy : String} (h : s.CacheSound cfg known)
    (hmeets : (GateEvent.approve id decidedBy env).meets cfg known s) :
    (s.adminApprove cfg env id decidedBy).2.CacheSound cfg known := by
  unfold Gate.adminApprove
  cases hawaiting : s.awaiting env id with
  | error => exact h
  | ok a =>
    simp only [GateEvent.meets, awaiting_get? hawaiting, Option.all_some, Bool.and_eq_true]
      at hmeets
    have hdecide : (s.decide cfg env a.input).2.CacheSound cfg known :=
      h.decide fun _ => PendingAction.bound hmeets.1 hmeets.2
    dsimp only
    generalize s.decide cfg env a.input = result at hdecide ⊢
    obtain ⟨_, s₁⟩ := result
    dsimp only at hdecide ⊢
    split_ifs
    · exact h
    · exact hdecide
    · rw [affected_snd]
      exact (samePolicy_exec _ _ s₁).cacheSound hdecide

/-- Every request keeps the cache sound. -/
theorem CacheSound.step {ev : GateEvent} (hmeets : ev.meets cfg known s)
    (h : s.CacheSound cfg known) : (step cfg ev s).CacheSound cfg known := by
  cases ev with
  | toolsCall => exact h.toolsCall hmeets
  | connectorSession | runCreate => exact h.checkConnectorPolicy nofun
  | governanceDecide => exact h.governanceDecide hmeets
  | governanceGetAction => exact (samePolicy_exec _ _ s).cacheSound h
  | approve => exact h.adminApprove hmeets
  | deny =>
    simp only [Gate.step, Gate.adminDeny]
    split
    · exact h
    · rw [affected_snd]
      exact (samePolicy_exec _ _ s).cacheSound h
  | openWindow | closeWindow => exact h
  | evict => exact fun key dec hmem => h key dec (List.mem_filter.1 hmem).1

/-- A call that is forwarded from a state with a sound cache is justified. -/
theorem CacheSound.justified {ev : GateEvent} (hsha : NoCollision cfg.sha256 known)
    (hmeets : ev.meets cfg known s) (h : s.CacheSound cfg known) : Justified cfg ev s := by
  cases ev with
  | toolsCall req env =>
    intro hforwarded
    cases hinput : req.input cfg env with
    | none => exact absurd hforwarded (toolsCall_of_no_input hinput).2
    | some i =>
      refine ⟨i, rfl, ?_⟩
      simp only [GateEvent.meets, hinput, Option.all_some] at hmeets
      obtain ⟨hstage, hbound⟩ := ToolsCall.bound hinput hmeets
      obtain ⟨hafter, hgoes⟩ := toolsCall_of_input (s := s) hinput
      have hsame : SamePolicy (s.checkConnectorPolicy cfg env i).2 (s.toolsCall cfg env req).2 := by
        rcases hafter with hretrieved | hsame
        · rw [hretrieved] at hforwarded
          cases hforwarded
        · exact hsame
      cases hwindow : s.bypassed env i with
      | true => exact .inr (.inl rfl)
      | false =>
        rw [checkConnectorPolicy_of_not_bypassed hwindow] at hgoes hsame
        dsimp only at hsame
        rcases hgoes hforwarded with hdenies | huse
        · have hallow : (s.decide cfg env i).1.effect = .allow := by simpa using hdenies
          exact .inl (hsame.allowed (allowed_of_decide hsha h hstage hbound hallow))
        · unfold Gate.decide at huse
          exact .inr (.inr huse)
  | _ => trivial

end Gate

/-- For every sequence of requests from a gate without decisions and approvals, in which every
name is free of NUL and an action is approved only if its display copy hides nothing, and with
arguments that do not collide under SHA-256 : a tool call is forwarded only if the uncached
decision on its own names and arguments is to allow it, a break-glass window covers it, or it
uses up an approval of exactly its scope. -/
theorem tool_gate_sound (cfg : GateConfig) (known : Value Decimal → Bool)
    (hsha : NoCollision cfg.sha256 known) (windows : List BreakGlassWindow)
    (events : List GateEvent)
    (hmeets : Trace.Every (Gate.step cfg) (fun ev s => ev.meets cfg known s = true) events
      (Gate.start windows)) :
    Trace.Every (Gate.step cfg) (Gate.Justified cfg) events (Gate.start windows) := by
  have hstart : (Gate.start windows).CacheSound cfg known :=
    fun _ _ hmem => absurd hmem List.not_mem_nil
  exact Trace.every_of_invariant (fun _ _ hev hs => hs.step hev)
    (fun _ _ hev hs => hs.justified hsha hev) hmeets hstart

/-! ## Two runs -/

/-- Stands for SHA-256 on the few texts of the runs below. -/
def fewTexts : Sha256
  | domain, .object [] => domain ++ "empty"
  | domain, .object _ => domain ++ "members"
  | domain, _ => domain ++ "scope"

/-- `send` always needs an operator, and so does a call with a token. -/
def mailConfig : GateConfig where
  engine :=
    { static := none
      predicates :=
        [{ id := "token", tenantId := "acme", agentId := "", connector := "mail", tool := "",
           path := "token", op := .present, value := .null, effect := .pending, reason := "",
           reasonCode := "" }]
      webhook := false
      mandatoryHITL :=
        [{ id := "", tenantId := "acme", agentId := "", connector := "mail", tools := ["send"] }]
      caching := true
      defaultEffect := .allow
      failClosed := true }
  sha256 := fewTexts

def mailEnv : GateEnv := { suffix := "1" }

/-- A call by a run without a user. -/
def mailCall (tool : String) (arguments : Text) : ToolsCall where
  binding := { runId := "r", generation := 1, tenantId := "acme", agentId := "bot", identity := "" }
  connector := "mail"
  tool := tool
  arguments := arguments

def noMembers : Value Decimal → Bool
  | .object [] => true
  | _ => false

theorem noCollision_noMembers (sha256 : Sha256) : NoCollision sha256 noMembers := by
  have hunique : ∀ v, noMembers v → v = .object [] := by
    intro v hv
    unfold noMembers at hv
    split at hv
    · rfl
    · cases hv
  intro v w hv hw _
  rw [hunique v hv, hunique w hw]

def ToolOutcome.isForwarded : ToolOutcome → Bool
  | .forwarded => true
  | _ => false

theorem ToolOutcome.eq_of_isForwarded {o : ToolOutcome} (h : o.isForwarded) :
    o = .forwarded := by
  cases o with
  | forwarded => rfl
  | _ => cases h

def GateEvent.forwards (cfg : GateConfig) : GateEvent → Gate → Bool
  | .toolsCall req env, s => (s.toolsCall cfg env req).1.isForwarded
  | _, _ => false

/-- `send` is held back, approved and sent once; `list` is evaluated and then answered from the
cache. -/
def mailEvents : List GateEvent :=
  [.toolsCall (mailCall "send" .empty) mailEnv, .approve "pending-v2-1" "op" mailEnv,
    .toolsCall (mailCall "send" .empty) mailEnv, .toolsCall (mailCall "list" .empty) mailEnv,
    .toolsCall (mailCall "list" .empty) mailEnv]

theorem tool_gate_sound_mail :
    Trace.count (Gate.step mailConfig) (GateEvent.forwards mailConfig) mailEvents (Gate.start []) = 3 ∧
      Trace.Every (Gate.step mailConfig) (Gate.Justified mailConfig) mailEvents (Gate.start []) :=
  ⟨by decide +kernel, tool_gate_sound mailConfig noMembers (noCollision_noMembers _) [] mailEvents
    (by decide +kernel)⟩

/-- Without a webhook its reply does not matter. -/
theorem Engine.uncached_of_no_webhook {e : Engine} (h : e.webhook = false) (i : PolicyInput)
    (reply reply' : WebhookReply) : e.uncached i reply = e.uncached i reply' := by
  have hcreate : e.decideRunCreate reply = e.decideRunCreate reply' := by simp [decideRunCreate, h]
  have heval : e.evaluate i reply = e.evaluate i reply' := by simp [evaluate, h, hcreate]
  rw [uncached, uncached, heval]

/-- A call that is forwarded although nothing justifies it. -/
theorem Gate.not_justified (hwebhook : cfg.engine.webhook = false)
    (hforwards : (GateEvent.toolsCall req env).forwards cfg s)
    (hinput : (req.input cfg env).all (fun i => !s.bypassed env i &&
      Decidable.decide ((cfg.engine.uncached i (.failed "")).effect ≠ .allow)))
    (hrows : s.pending.rows.all (fun r => Decidable.decide (r.status ≠ .approved))) :
    ¬ Gate.Justified cfg (.toolsCall req env) s := by
  intro hjustified
  obtain ⟨i, hi, hrests⟩ := hjustified (ToolOutcome.eq_of_isForwarded hforwards)
  rw [hi] at hinput
  simp only [Option.all_some, Bool.and_eq_true, Bool.not_eq_true', decide_eq_true_eq] at hinput
  rcases hrests with ⟨_, reply, -, -, hallow⟩ | hwindow | ⟨_, r, -, hr, hstatus, -⟩
  · rw [uncached_of_no_webhook hwebhook i reply (.failed "")] at hallow
    exact hinput.2 hallow
  · rw [hinput.1] at hwindow
    cases hwindow
  · have := List.all_eq_true.1 hrows r (Table.mem_iff_get?.2 ((Table.get?_eq_some_iff.1 hr).2 ▸ hr))
    simp [hstatus] at this

/-- A call with a member that the display copy leaves out. -/
def tokenCall : GateEvent :=
  .toolsCall (mailCall "list" (.document (.object [("token", .string "x")]))) mailEnv

/-- The call is held back because of its token and approved. The approval evaluates the display
copy, which has no token, and caches an allowance under the digest of the full arguments. The
approval is used up by the second call, and the third is forwarded from the cache. -/
theorem forwarded_from_display_copy :
    ¬ Trace.Every (Gate.step mailConfig) (Gate.Justified mailConfig)
      [tokenCall, .approve "pending-v2-1" "op" mailEnv, tokenCall, tokenCall] (Gate.start []) := by
  rintro ⟨-, -, -, hlast, -⟩
  exact Gate.not_justified rfl (by decide +kernel) (by decide +kernel) (by decide +kernel) hlast

end Runkite
