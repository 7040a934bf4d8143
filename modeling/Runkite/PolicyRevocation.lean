import Runkite.PolicyCaching
import Runkite.PolicyConfig

/-!
# Revocation

`Decide` reads the grants under a lock and writes the cache later, without it. `ReplaceOverlays` and
`ReplaceMandatoryHITL` hold the lock while they put the new rules in place and then purge the cache.
A call in flight is a phase (`DecidePhase`), and a replacement is two steps, so that other calls can
look up and store decisions between them.

A decision may be stored when its grants are no longer in force, which the code does not check
(`revoked_grant_allows`). `revocation_effective` is about runs without this.
-/

open Binary64 (Decimal)
open Json (Value)
open Strings (Free)

namespace Runkite

deriving instance DecidableEq for ToolFilter

deriving instance DecidableEq for Grant

/-! ## Calls and replacements -/

inductive DecidePhase where
  | started
  /-- The rules have been read. -/
  | read (e : LiveEngine)
  /-- The cache has no decision. -/
  | missed (e : LiveEngine)
  | evaluated (e : LiveEngine) (dec : PolicyDecision)
  /-- The mandatory rules come next. -/
  | decided (dec : PolicyDecision)
  | returned (dec : PolicyDecision)

/-- A call of `Decide`, with the rules that were in force since it started. -/
structure DecideCall where
  input : PolicyInput
  phase : DecidePhase
  seen : List LiveEngine

namespace DecideCall

def inFlight (call : DecideCall) : Bool :=
  match call.phase with
  | .returned _ => false
  | _ => true

/-- New rules come into force. -/
def observe (e : LiveEngine) (call : DecideCall) : DecideCall :=
  if call.inFlight then { call with seen := call.seen ++ [e] } else call

end DecideCall

structure PolicyState where
  live : LiveEngine
  /-- The rules that a replacement in progress has replaced; it holds the lock. -/
  previous : Option LiveEngine
  cache : DecisionCache
  calls : List DecideCall

inductive PolicyStep where
  | decide (i : PolicyInput)
  /-- A call goes on; the reply is the webhook's if it asks one. -/
  | advance (n : ℕ) (reply : WebhookReply)
  | replaceOverlays (overlays : List Grant)
  | replaceMandatoryHITL (overlays : List MandatoryHITLRule)
  /-- The replacement purges the cache and returns. -/
  | purge
  | evict (kept : String → Bool)

namespace PolicyState

def init (e : LiveEngine) : PolicyState := ⟨e, none, [], []⟩

variable (s : PolicyState)

/-- New rules are put in place under the lock. -/
def swap (e : LiveEngine) : PolicyState :=
  match s.previous with
  | some _ => s
  | none =>
    { live := e, previous := some s.live, cache := s.cache,
      calls := s.calls.map (DecideCall.observe e) }

/-- The next phase of a call and the cache it leaves. -/
def next (reply : WebhookReply) (call : DecideCall) : DecidePhase × DecisionCache :=
  match call.phase with
  | .started =>
    if Engine.missingBinding call.input then (.decided Engine.missingBindingDecision, s.cache)
    else if s.previous.isSome then (.started, s.cache)
    else (.read s.live, s.cache)
  | .read e =>
    match e.engine.hit call.input s.cache with
    | some dec => (.decided dec, s.cache)
    | none => (.missed e, s.cache)
  | .missed e => (.evaluated e (e.engine.evaluate call.input reply), s.cache)
  | .evaluated e dec =>
    (.decided dec,
      if e.engine.caching && dec.effect ≠ .pending then s.cache.put (cacheKey call.input) dec
      else s.cache)
  | .decided dec =>
    -- the lock is taken only where the mandatory rules are read
    if call.input.stage = .toolCall && dec.effect = .allow && s.previous.isSome then
      (.decided dec, s.cache)
    else (.returned (s.live.engine.applyMandatoryHITL call.input dec), s.cache)
  | .returned dec => (.returned dec, s.cache)

def step : PolicyStep → PolicyState → PolicyState
  | .decide i, s => { s with calls := s.calls ++ [⟨i, .started, [s.live]⟩] }
  | .advance n reply, s =>
    match s.calls[n]? with
    | none => s
    | some call =>
      { s with
        cache := (s.next reply call).2
        calls := s.calls.set n { call with phase := (s.next reply call).1 } }
  | .replaceOverlays overlays, s => s.swap (s.live.replaceOverlays overlays)
  | .replaceMandatoryHITL overlays, s => s.swap (s.live.replaceMandatoryHITL overlays)
  | .purge, s => { s with previous := none, cache := if s.previous.isSome then [] else s.cache }
  | .evict kept, s => { s with cache := s.cache.evict kept }

/-- The grants are those in force, or those that a replacement in progress has just replaced, whose
decisions it is about to purge. -/
def inForce (e : LiveEngine) : Bool :=
  e.grants = s.live.grants || s.previous.any fun p => e.grants = p.grants

/-- The rules under which the call is about to store a decision. -/
def storing (n : ℕ) : Option LiveEngine :=
  match s.calls[n]?.map DecideCall.phase with
  | some (.evaluated e dec) => if e.engine.caching && dec.effect ≠ .pending then some e else none
  | _ => none

/-- A decision is stored only while its grants are in force. -/
def Fresh : PolicyStep → PolicyState → Prop
  | .advance n _, s => (s.storing n).all s.inForce = true
  | _, _ => True

instance : ∀ l s, Decidable (Fresh l s)
  | .advance n _, s => inferInstanceAs (Decidable ((s.storing n).all s.inForce = true))
  | .decide _, _ | .replaceOverlays _, _ | .replaceMandatoryHITL _, _ | .purge, _ | .evict _, _ =>
    .isTrue trivial

/-- A call that nothing interrupts is one `policyDecide`. -/
theorem run_alone (live : LiveEngine) (cache : DecisionCache) (i : PolicyInput)
    (reply : WebhookReply) : Trace.run step (List.replicate 5 (.advance 0 reply))
        ⟨live, none, cache, [⟨i, .started, [live]⟩]⟩ =
      ⟨live, none, (live.engine.policyDecide i reply cache).2,
        [⟨i, .returned (live.engine.policyDecide i reply cache).1, [live]⟩]⟩ := by
  simp only [List.replicate]
  unfold Engine.policyDecide Engine.decide
  cases hbinding : Engine.missingBinding i with
  | true => simp [step, next, hbinding]
  | false =>
    cases hhit : live.engine.hit i cache with
    | some | none => simp [step, next, hbinding, hhit]

end PolicyState

/-! ## Where a decision comes from -/

-- the proofs below split on it and never look into it
attribute [local irreducible] Engine.missingBinding

/-- The evaluation, under rules that the call has seen, of an input with the call's key. -/
def Sourced (asked : PolicyInput → Prop) (i : PolicyInput) (seen : List LiveEngine)
    (dec : PolicyDecision) : Prop :=
  if Engine.missingBinding i then dec = Engine.missingBindingDecision
  else ∃ e ∈ seen, ∃ j reply, asked j ∧ cacheKey j = cacheKey i ∧ dec = e.engine.evaluate j reply

/-- Such a decision after mandatory rules that the call has seen. -/
def Answers (asked : PolicyInput → Prop) (i : PolicyInput) (seen : List LiveEngine)
    (dec : PolicyDecision) : Prop :=
  ∃ e ∈ seen, ∃ dec', Sourced asked i seen dec' ∧ dec = e.engine.applyMandatoryHITL i dec'

/-- What a call knows in each phase. -/
def DecidePhase.Holds (asked : PolicyInput → Prop) (i : PolicyInput) (seen : List LiveEngine) :
    DecidePhase → Prop
  | .started => True
  | .read e => Engine.missingBinding i = false ∧ e ∈ seen
  | .missed e => Engine.missingBinding i = false ∧ e ∈ seen
  | .evaluated e dec => Engine.missingBinding i = false ∧ e ∈ seen ∧
    ∃ reply, dec = e.engine.evaluate i reply
  | .decided dec => Sourced asked i seen dec
  | .returned dec => Answers asked i seen dec

variable {dec : PolicyDecision} {asked : PolicyInput → Prop} {i : PolicyInput}
  {seen seen' : List LiveEngine}

theorem sourced_iff (hbinding : Engine.missingBinding i = false) :
    Sourced asked i seen dec ↔ ∃ e ∈ seen, ∃ j reply, asked j ∧ cacheKey j = cacheKey i ∧
      dec = e.engine.evaluate j reply := by rw [Sourced, hbinding, if_neg Bool.false_ne_true]

theorem Sourced.mono (hseen : seen ⊆ seen')
    (h : Sourced asked i seen dec) : Sourced asked i seen' dec := by
  unfold Sourced at h ⊢
  split_ifs at h ⊢
  · exact h
  · obtain ⟨e, he, hrest⟩ := h
    exact ⟨e, hseen he, hrest⟩

theorem DecidePhase.Holds.mono (hseen : seen ⊆ seen') {phase : DecidePhase}
    (h : phase.Holds asked i seen) : phase.Holds asked i seen' := by
  cases phase with
  | started => trivial
  | read | missed => exact ⟨h.1, hseen h.2⟩
  | evaluated => exact ⟨h.1, hseen h.2.1, h.2.2⟩
  | decided => exact Sourced.mono hseen h
  | returned =>
    obtain ⟨e, he, dec', hdec', rfl⟩ := h
    exact ⟨e, hseen he, dec', hdec'.mono hseen, rfl⟩

def Engine.withMandatoryHITL (e : Engine) (rules : List MandatoryHITLRule) : Engine :=
  { e with mandatoryHITL := rules }

/-- The mandatory rules are not part of an evaluation. -/
theorem Engine.evaluate_withMandatoryHITL (e : Engine) (rules : List MandatoryHITLRule) :
    (e.withMandatoryHITL rules).evaluate = e.evaluate := rfl

theorem LiveEngine.evaluate_eq {e e' : LiveEngine} (hconfig : e.config = e'.config)
    (hgrants : e.grants = e'.grants) : e.engine.evaluate = e'.engine.evaluate := by
  have hengine : e.engine = e'.engine.withMandatoryHITL e.engine.mandatoryHITL := by
    simp [LiveEngine.engine, Engine.withMandatoryHITL, hconfig, hgrants]
  rw [hengine, Engine.evaluate_withMandatoryHITL]

namespace PolicyState

variable {s : PolicyState} {call : DecideCall}

/-! ## The invariant -/

/-- A call has seen the rules in force and those that it has read. -/
structure CallSound (asked : PolicyInput → Prop) (s : PolicyState) (call : DecideCall) : Prop where
  input : asked call.input
  config : ∀ e ∈ call.seen, e.config = s.live.config
  live : call.inFlight = true → s.live ∈ call.seen
  /-- No call reads rules while they are replaced, so one that has read some has seen those that
  go. -/
  previous : ∀ p, s.previous = some p → ∀ e, call.phase = .read e → p ∈ call.seen
  holds : call.phase.Holds asked call.input call.seen

/-- The decision is an evaluation under the rules in force, or under those that are being
replaced. -/
def Stored (asked : PolicyInput → Prop) (s : PolicyState) (key : String) (dec : PolicyDecision) :
    Prop :=
  ∃ j reply, asked j ∧ cacheKey j = key ∧ (dec = s.live.engine.evaluate j reply ∨
    ∃ p, s.previous = some p ∧ dec = p.engine.evaluate j reply)

structure Sound (asked : PolicyInput → Prop) (s : PolicyState) : Prop where
  config : ∀ p, s.previous = some p → p.config = s.live.config
  calls : ∀ call ∈ s.calls, CallSound asked s call
  cache : ∀ key dec, (key, dec) ∈ s.cache → s.Stored asked key dec

/-- What a call has seen stays true where no rules are put in place. -/
theorem CallSound.congr {s' : PolicyState} (h : CallSound asked s call) (hlive : s'.live = s.live)
    (hprevious : ∀ p, s'.previous = some p → s.previous = some p) : CallSound asked s' call where
  input := h.input
  config e he := (h.config e he).trans (congrArg LiveEngine.config hlive.symm)
  live hflight := hlive ▸ h.live hflight
  previous p hp := h.previous p (hprevious p hp)
  holds := h.holds

theorem sound_init (e : LiveEngine) : (init e).Sound asked where
  config _ h := by cases h
  calls _ h := absurd h List.not_mem_nil
  cache _ _ h := absurd h List.not_mem_nil

variable {reply : WebhookReply} {e : LiveEngine}

theorem grants_of_fresh {n : ℕ} (h : Fresh (.advance n reply) s) (hn : s.calls[n]? = some call)
    (hphase : call.phase = .evaluated e dec) (hstored : e.engine.caching && dec.effect ≠ .pending) :
    e.grants = s.live.grants ∨ ∃ p, s.previous = some p ∧ e.grants = p.grants := by
  have hforce : s.inForce e := by
    simp only [Fresh, storing, hn, Option.map_some, hphase, hstored, if_true] at h
    exact h
  rw [inForce, Bool.or_eq_true, decide_eq_true_eq, Option.any_eq_true_iff_get] at hforce
  obtain hlive | ⟨hsome, hp⟩ := hforce
  · exact .inl hlive
  · exact .inr ⟨_, (Option.some_get hsome).symm, of_decide_eq_true hp⟩

/-- Only an evaluated decision is stored. -/
theorem mem_cache_next {entry : String × PolicyDecision}
    (h : entry ∈ (s.next reply call).2) : entry ∈ s.cache ∨
      ∃ e dec, call.phase = .evaluated e dec ∧ (e.engine.caching && dec.effect ≠ .pending) ∧
        entry = (cacheKey call.input, dec) := by
  unfold next at h
  cases hphase : call.phase with
  | evaluated e dec =>
    rw [hphase] at h
    dsimp only at h
    split_ifs at h with hstored
    · rcases List.mem_cons.1 h with rfl | hold
      · exact .inr ⟨e, dec, rfl, hstored, rfl⟩
      · exact .inl (List.mem_filter.1 hold).1
    · exact .inl h
  | started | decided =>
    rw [hphase] at h
    dsimp only at h
    split_ifs at h <;> exact .inl h
  | read =>
    rw [hphase] at h
    dsimp only at h
    split at h <;> exact .inl h
  | missed | returned =>
    rw [hphase] at h
    exact .inl h

theorem CallSound.holds_next (hs : s.Sound asked) (h : CallSound asked s call)
    (reply : WebhookReply) : (s.next reply call).1.Holds asked call.input call.seen := by
  have hholds := h.holds
  have hprevious := h.previous
  have hlive : call.inFlight → s.live ∈ call.seen := h.live
  unfold DecideCall.inFlight at hlive
  unfold next
  cases hphase : call.phase with
  | started =>
    rw [hphase] at hlive
    dsimp only
    split_ifs with hbinding
    · simp [DecidePhase.Holds, Sourced, hbinding]
    · trivial
    · exact ⟨Bool.eq_false_iff.2 hbinding, hlive rfl⟩
  | read e =>
    rw [hphase] at hlive hholds
    dsimp only
    cases hhit : e.engine.hit call.input s.cache with
    | none => exact hholds
    | some =>
      -- what is in the cache was evaluated under rules that the call has seen
      obtain ⟨j, reply', hj, hkey, hdec⟩ := hs.cache _ _ (Engine.mem_of_hit hhit)
      refine (sourced_iff hholds.1).2 ?_
      rcases hdec with hdec | ⟨p, hp, hdec⟩
      · exact ⟨s.live, hlive rfl, j, reply', hj, hkey, hdec⟩
      · exact ⟨p, hprevious p hp e hphase, j, reply', hj, hkey, hdec⟩
  | missed =>
    rw [hphase] at hholds
    exact ⟨hholds.1, hholds.2, reply, rfl⟩
  | evaluated e dec =>
    rw [hphase] at hholds
    obtain ⟨hbinding, he, reply', hdec⟩ := hholds
    exact (sourced_iff hbinding).2 ⟨e, he, call.input, reply', h.input, rfl, hdec⟩
  | decided dec =>
    rw [hphase] at hlive hholds
    dsimp only
    split_ifs
    · exact hholds
    · exact ⟨s.live, hlive rfl, dec, hholds, rfl⟩
  | returned =>
    rw [hphase] at hholds
    exact hholds

/-- Rules are read only while none are being replaced. -/
theorem previous_of_next_read (h : (s.next reply call).1 = .read e) : s.previous = none := by
  unfold next at h
  cases hphase : call.phase <;> rw [hphase] at h <;> dsimp only at h
  case started =>
    split_ifs at h with _ hlocked
    exact Option.not_isSome_iff_eq_none.1 hlocked
  case read => split at h <;> cases h
  case missed => cases h
  case evaluated => cases h
  case decided => split_ifs at h
  case returned => cases h

theorem inFlight_of_next
    (h : ({ call with phase := (s.next reply call).1 } : DecideCall).inFlight) :
    call.inFlight := by
  cases hphase : call.phase with
  | returned =>
    simp only [next, hphase] at h
    exact absurd h Bool.false_ne_true
  | _ => simp [DecideCall.inFlight, hphase]

/-! ## Steps -/

theorem Sound.decide {i : PolicyInput} (h : s.Sound asked) (hi : asked i) :
    (step (.decide i) s).Sound asked where
  config := h.config
  calls call hcall := by
    rcases List.mem_append.1 hcall with hold | hnew
    · exact (h.calls call hold).congr rfl fun _ hp => hp
    · obtain rfl := List.mem_singleton.1 hnew
      refine ⟨hi, ?_, fun _ => List.mem_singleton_self _, ?_, trivial⟩
      · intro e he
        rw [List.mem_singleton.1 he]
        rfl
      · intro p _ e hread
        cases hread
  cache := h.cache

theorem Sound.advance {n : ℕ} (h : s.Sound asked)
    (hfresh : Fresh (.advance n reply) s) : (step (.advance n reply) s).Sound asked := by
  cases hn : s.calls[n]? with
  | none =>
    simp only [step, hn]
    exact h
  | some call =>
    simp only [step, hn]
    have hcall := h.calls call (List.mem_of_getElem? hn)
    refine ⟨h.config, ?_, ?_⟩
    · intro call' hcall'
      rcases List.mem_or_eq_of_mem_set hcall' with hold | rfl
      · exact (h.calls call' hold).congr rfl fun _ hp => hp
      · refine ⟨hcall.input, hcall.config, fun hflight => hcall.live (inFlight_of_next hflight), ?_,
          hcall.holds_next h reply⟩
        intro p hp e he
        have hnone := previous_of_next_read he
        rw [hnone] at hp
        cases hp
    · intro key dec hmem
      rcases mem_cache_next hmem with hold | ⟨e, dec', hphase, hstored, hentry⟩
      · exact h.cache key dec hold
      · obtain ⟨rfl, rfl⟩ := Prod.mk.inj hentry
        have hholds := hcall.holds
        rw [hphase] at hholds
        obtain ⟨-, he, reply', hdec⟩ := hholds
        refine ⟨call.input, reply', hcall.input, rfl, ?_⟩
        have hconfig := hcall.config e he
        rcases grants_of_fresh hfresh hn hphase hstored with hgrants | ⟨p, hp, hgrants⟩
        · exact .inl (by rw [hdec, LiveEngine.evaluate_eq hconfig hgrants])
        · refine .inr ⟨p, hp, ?_⟩
          rw [hdec, LiveEngine.evaluate_eq (hconfig.trans (h.config p hp).symm) hgrants]

theorem CallSound.observe (h : CallSound asked s call) (hs : s.previous = none)
    (hconfig : e.config = s.live.config) : CallSound asked (s.swap e) (call.observe e) := by
  have hswap : s.swap e = { live := e, previous := some s.live, cache := s.cache,
                            calls := s.calls.map (DecideCall.observe e) } := by rw [swap, hs]
  rw [hswap]
  unfold DecideCall.observe
  split_ifs with hflight
  · refine ⟨h.input, ?_, ?_, ?_, h.holds.mono (List.subset_append_left _ _)⟩
    · intro e' he'
      rcases List.mem_append.1 he' with hold | hnew
      · exact (h.config e' hold).trans hconfig.symm
      · rw [List.mem_singleton.1 hnew]
    · exact fun _ => List.mem_append_right _ List.mem_cons_self
    · intro p hp _ _
      cases hp
      exact List.mem_append_left _ (h.live hflight)
  · refine ⟨h.input, fun e' he' => (h.config e' he').trans hconfig.symm,
      fun hf => absurd hf hflight, ?_, h.holds⟩
    intro p _ e' he'
    simp [DecideCall.inFlight, he'] at hflight

/-- The new rules are in place, and the cache is still to be purged. -/
theorem Sound.swap (h : s.Sound asked) (hconfig : e.config = s.live.config) :
    (s.swap e).Sound asked := by
  cases hs : s.previous with
  | some =>
    have hswap : s.swap e = s := by rw [PolicyState.swap, hs]
    rw [hswap]
    exact h
  | none =>
    refine ⟨?_, ?_, ?_⟩
    · intro p hp
      rw [PolicyState.swap, hs] at hp ⊢
      cases hp
      exact hconfig.symm
    · intro call' hcall'
      have hcalls : (s.swap e).calls = s.calls.map (DecideCall.observe e) := by
        rw [PolicyState.swap, hs]
      rw [hcalls] at hcall'
      obtain ⟨call, hcall, rfl⟩ := List.mem_map.1 hcall'
      exact (h.calls call hcall).observe hs hconfig
    · intro key dec hmem
      rw [PolicyState.swap, hs] at hmem ⊢
      obtain ⟨j, reply, hj, hkey, hdec | ⟨p, hp, -⟩⟩ := h.cache key dec hmem
      · exact ⟨j, reply, hj, hkey, .inr ⟨s.live, rfl, hdec⟩⟩
      · rw [hs] at hp
        cases hp

theorem Sound.purge (h : s.Sound asked) : (step .purge s).Sound asked where
  config _ hp := by cases hp
  calls call hcall := (h.calls call hcall).congr rfl nofun
  cache key dec hmem := by
    unfold step at hmem
    dsimp only at hmem
    split_ifs at hmem with hlocked
    · exact absurd hmem List.not_mem_nil
    · obtain ⟨j, reply, hj, hkey, hdec | ⟨p, hp, -⟩⟩ := h.cache key dec hmem
      · exact ⟨j, reply, hj, hkey, .inl hdec⟩
      · rw [hp] at hlocked
        exact absurd rfl hlocked

theorem Sound.evict (h : s.Sound asked) (kept : String → Bool) :
    (step (.evict kept) s).Sound asked where
  config := h.config
  calls call hcall := (h.calls call hcall).congr rfl fun _ hp => hp
  cache key dec hmem := h.cache key dec (List.mem_filter.1 hmem).1

theorem Sound.step {l : PolicyStep} (h : s.Sound asked) (hfresh : Fresh l s)
    (hasked : ∀ i, l = .decide i → asked i) : (step l s).Sound asked := by
  cases l with
  | decide i => exact h.decide (hasked i rfl)
  | advance => exact h.advance hfresh
  | replaceOverlays | replaceMandatoryHITL => exact h.swap rfl
  | purge => exact h.purge
  | evict kept => exact h.evict kept

/-- A decision is the one that grants and mandatory rules give that were in force while it was
taken : for an input with the call's key, which is evaluated as the call is if the keys are as
`PolicyInput.Digested` has them. -/
theorem revocation_effective (e : LiveEngine) (steps : List PolicyStep)
    (hfresh : Trace.Every step Fresh steps (init e)) (call : DecideCall)
    (hcall : call ∈ (Trace.run step steps (init e)).calls) (dec : PolicyDecision)
    (hreturned : call.phase = .returned dec) :
    ∃ grants ∈ call.seen, ∃ rules ∈ call.seen, ∃ j reply, cacheKey j = cacheKey call.input ∧
      dec = rules.engine.applyMandatoryHITL call.input
        (if Engine.missingBinding call.input then Engine.missingBindingDecision
          else grants.engine.evaluate j reply) ∧
      ∀ sha256 known, NoCollision sha256 known → (∀ domain v, Free nul (sha256 domain v)) →
        (∀ i, .decide i ∈ steps → i.Digested sha256 known) →
        grants.engine.evaluate j reply = grants.engine.evaluate call.input reply := by
  have hasked : Trace.Every step (fun l _ => ∀ i, l = .decide i → .decide i ∈ steps) steps
      (init e) := Trace.every_of_mem fun l hl i hi => hi ▸ hl
  have hsound : (Trace.run step steps (init e)).Sound (fun i => .decide i ∈ steps) :=
    Trace.invariant (fun l s hl hs => Sound.step hs hl.1 hl.2) (Trace.every_and hfresh hasked)
      (sound_init e)
  obtain ⟨hinput, -, -, -, hholds⟩ := hsound.calls call hcall
  rw [hreturned] at hholds
  obtain ⟨rules, hrules, _, hdec', rfl⟩ := hholds
  unfold Sourced at hdec'
  split_ifs at hdec' ⊢ with hbinding
  · subst hdec'
    exact ⟨rules, hrules, rules, hrules, call.input, .failed "", rfl, rfl, fun _ _ _ _ _ => rfl⟩
  · obtain ⟨grants, hgrants, j, reply, hj, hkey, rfl⟩ := hdec'
    exact ⟨grants, hgrants, rules, hrules, j, reply, hkey, rfl, fun sha256 known hsha hhex hall =>
      Engine.evaluate_eq_of_cacheKey_eq hsha hhex (hall j hj) (hall _ hinput) hkey reply⟩

/-- An engine with one grant, from an overlay, and a cache. -/
def granted : LiveEngine :=
  ⟨{ cacheTTL := 1, forceEnable := true },
    [{ id := "g", tenantId := "acme", agentId := "bot", connector := "mail", tools := none }], []⟩

/-- A whole call, from its first step to its last. -/
def decideCall (n : ℕ) : List PolicyStep :=
  .decide (mailInput "send") :: List.replicate 5 (.advance n (.failed ""))

/-- The grant is used, revoked, and not used again. -/
def usedAndRevoked : List PolicyStep :=
  decideCall 0 ++ [.replaceOverlays [], .purge] ++ decideCall 1

theorem revocation_effective_denied :
    ((Trace.run step usedAndRevoked (init granted)).calls.map fun call => call.seen.length) =
      [1, 1] ∧
    ∀ call ∈ (Trace.run step usedAndRevoked (init granted)).calls, ∀ dec,
      call.phase = .returned dec → ∃ grants ∈ call.seen, ∃ rules ∈ call.seen, ∃ j reply,
        cacheKey j = cacheKey call.input ∧
        dec = rules.engine.applyMandatoryHITL call.input
          (if Engine.missingBinding call.input then Engine.missingBindingDecision
            else grants.engine.evaluate j reply) := by
  refine ⟨by decide +kernel, fun call hcall dec hreturned => ?_⟩
  obtain ⟨grants, hgrants, rules, hrules, j, reply, hkey, hdec, -⟩ :=
    revocation_effective granted usedAndRevoked (by decide +kernel) call hcall dec hreturned
  exact ⟨grants, hgrants, rules, hrules, j, reply, hkey, hdec⟩

/-- The first call has evaluated the grant when it is revoked, and stores its decision after the
purge. -/
def storedLate : List PolicyStep :=
  (decideCall 0).take 4 ++ [.replaceOverlays [], .purge] ++ (decideCall 0).drop 4 ++ decideCall 1

/-- The decision of a call that has returned. -/
def answered (s : PolicyState) (n : ℕ) : Option Effect :=
  match s.calls[n]?.map DecideCall.phase with
  | some (.returned dec) => some dec.effect
  | _ => none

/-- The second call starts after the revocation has returned and is allowed, although the rules
that it has seen deny it. -/
theorem revoked_grant_allows : answered (Trace.run step storedLate (init granted)) 1 = some .allow ∧
      ((Trace.run step storedLate (init granted)).calls[1]?.map fun call =>
        call.seen.map fun e => (e.engine.uncached call.input (.failed "")).effect) =
        some [.deny] := by decide +kernel

end PolicyState

end Runkite
