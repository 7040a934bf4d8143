import Runkite.ArgsDigest
import Runkite.Trace

/-!
# The cache does not show

Between two replacements of its rules an engine without a webhook answers as it would without its
cache (`caching_invisible`), whatever is evicted. Two inputs with the same key are evaluated alike
(`Engine.evaluate_eq_of_cacheKey_eq`) : the names before the tool are free of the separator, and so
is the digest after it, so the tool can be any text.

The arguments of a predicate are the display copy where an input has no others, and the digest does
not cover that one. Such inputs share their key (`display_copy_shared`).
-/

open Binary64 (Decimal)
open Json (Value)
open Strings (Free eq_of_append_sep eq_of_append_sep_last)

namespace Runkite

/-! ## Inputs -/

/-- The names of the caller have no separator, and the digest of a tool call is the one of its
arguments, which are among the known ones; it has a display copy only of these. -/
structure PolicyInput.Digested (sha256 : Sha256) (known : Value Decimal → Bool)
    (i : PolicyInput) : Prop where
  tenantId : Free nul i.tenantId
  agentId : Free nul i.agentId
  principal : Free nul i.principal
  connector : Free nul i.connector
  args : i.stage = .toolCall → (i.args.getD (.object [])).Keyed ∧
    known (i.args.getD (.object [])) = true ∧
    i.argsDigest = digestArgs sha256 (i.args.getD (.object [])) ∧
    (i.args = none → i.argsMeta = none)

variable {sha256 : Sha256} {known : Value Decimal → Bool} {i j : PolicyInput} {e : Engine}

namespace PolicyInput.Digested

theorem predicateArgs_eq (h : i.Digested sha256 known) (hstage : i.stage = .toolCall) :
    predicateArgs i = i.args.getD (.object []) := by
  have hmeta := (h.args hstage).2.2.2
  unfold predicateArgs
  cases hargs : i.args with
  | some => rfl
  | none => rw [hmeta hargs, Option.getD_none]

/-- The names before the tool can be read off a key. -/
theorem names_of_cacheKey_eq (hi : i.Digested sha256 known) (hj : j.Digested sha256 known)
    (h : cacheKey i = cacheKey j) : i.stage = j.stage ∧ i.tenantId = j.tenantId ∧
      i.agentId = j.agentId ∧ i.principal = j.principal ∧ i.connector = j.connector ∧
      i.tool ++ (sep ++ i.argsDigest) = j.tool ++ (sep ++ j.argsDigest) := by
  have hstage := stage_of_cacheKey_eq h
  unfold cacheKey sep at h
  obtain ⟨-, h⟩ := eq_of_append_sep i.stage.free_text j.stage.free_text h
  obtain ⟨htenant, h⟩ := eq_of_append_sep hi.tenantId hj.tenantId h
  obtain ⟨hagent, h⟩ := eq_of_append_sep hi.agentId hj.agentId h
  obtain ⟨hprincipal, h⟩ := eq_of_append_sep hi.principal hj.principal h
  obtain ⟨hconnector, h⟩ := eq_of_append_sep hi.connector hj.connector h
  exact ⟨hstage, htenant, hagent, hprincipal, hconnector, h⟩

/-- Tool calls with the same key are one call. The tool ends at the last separator. -/
theorem sameCall (hsha : NoCollision sha256 known) (hhex : ∀ domain v, Free nul (sha256 domain v))
    (hi : i.Digested sha256 known) (hj : j.Digested sha256 known) (hstage : i.stage = .toolCall)
    (h : cacheKey i = cacheKey j) : SameCall i j := by
  obtain ⟨hstages, htenant, hagent, hprincipal, hconnector, htail⟩ :=
    names_of_cacheKey_eq hi hj h
  have hstage' : j.stage = .toolCall := hstages ▸ hstage
  obtain ⟨hik, hiknown, hid, -⟩ := hi.args hstage
  obtain ⟨hjk, hjknown, hjd, -⟩ := hj.args hstage'
  obtain ⟨htool, hdigest⟩ := eq_of_append_sep_last
    (by rw [hid]; exact hhex _ _) (by rw [hjd]; exact hhex _ _) htail
  refine ⟨hstages, htenant, hagent, hprincipal, hconnector, htool, ?_⟩
  rw [hi.predicateArgs_eq hstage, hj.predicateArgs_eq hstage']
  exact ⟨hik, hjk, hsha _ _ hiknown hjknown (by rw [← hid, ← hjd, hdigest])⟩

end PolicyInput.Digested

namespace Engine

/-- Only a tool call is evaluated by more than its stage and three names. -/
theorem evaluate_eq_of_names (hstage : i.stage = j.stage) (hnot : i.stage ≠ .toolCall)
    (htenant : i.tenantId = j.tenantId) (hagent : i.agentId = j.agentId)
    (hconnector : i.connector = j.connector) (reply : WebhookReply) :
    e.evaluate i reply = e.evaluate j reply := by
  have hcovers : Grant.covers i = Grant.covers j := by
    funext g
    simp [Grant.covers, htenant, hagent, hconnector]
  have hnot' : j.stage ≠ .toolCall := hstage ▸ hnot
  have hstatic : e.staticLayer i = e.staticLayer j := by
    simp [staticLayer, staticDecide, hcovers, hnot, hnot', decide_false, Bool.false_and]
  have hpredicates : applyPredicates e.predicates i = applyPredicates e.predicates j := by
    rw [applyPredicates, if_pos hnot, applyPredicates, if_pos hnot']
  simp [evaluate, hstage, hstatic, hpredicates]

/-- Inputs with the same key are evaluated alike. -/
theorem evaluate_eq_of_cacheKey_eq (hsha : NoCollision sha256 known)
    (hhex : ∀ domain v, Free nul (sha256 domain v)) (hi : i.Digested sha256 known)
    (hj : j.Digested sha256 known) (h : cacheKey i = cacheKey j) (reply : WebhookReply) :
    e.evaluate i reply = e.evaluate j reply := by
  by_cases hstage : i.stage = .toolCall
  · exact (hi.sameCall hsha hhex hj hstage h).evaluate_eq e reply
  · obtain ⟨hstages, htenant, hagent, -, hconnector, -⟩ := hi.names_of_cacheKey_eq hj h
    exact evaluate_eq_of_names hstages hstage htenant hagent hconnector reply

end Engine

/-! ## Runs -/

inductive CacheEvent where
  | decide (i : PolicyInput) (reply : WebhookReply)
  /-- Entries expire or are dropped. -/
  | evict (kept : String → Bool)

def CacheEvent.Digested (sha256 : Sha256) (known : Value Decimal → Bool) : CacheEvent → Prop
  | .decide i _ => i.Digested sha256 known
  | .evict _ => True

namespace Engine

variable {cache : DecisionCache}

def cacheStep (e : Engine) : CacheEvent → DecisionCache → DecisionCache
  | .decide i reply, cache => (e.policyDecide i reply cache).2
  | .evict kept, cache => cache.evict kept

/-- The same engine, caching off. -/
def uncaching (e : Engine) : Engine := { e with caching := false }

/-- The decision is the one that the engine without a cache takes. -/
def Invisible (e : Engine) : CacheEvent → DecisionCache → Prop
  | .decide i reply, cache =>
    (e.policyDecide i reply cache).1 = (e.uncaching.policyDecide i reply []).1
  | .evict _, _ => True

/-- Each entry is what an evaluation of an input with its key gives. -/
def CacheExact (e : Engine) (sha256 : Sha256) (known : Value Decimal → Bool)
    (cache : DecisionCache) : Prop :=
  ∀ key dec, (key, dec) ∈ cache → ∃ j : PolicyInput, j.Digested sha256 known ∧ cacheKey j = key ∧
    ∀ reply, e.evaluate j reply = dec

theorem CacheExact.step (hweb : e.webhook = false) (event : CacheEvent)
    (hevent : event.Digested sha256 known) (h : e.CacheExact sha256 known cache) :
    e.CacheExact sha256 known (e.cacheStep event cache) := by
  cases event with
  | evict => exact fun key dec hmem => h key dec (List.mem_filter.1 hmem).1
  | decide i reply =>
    intro key dec hmem
    rw [cacheStep, policyDecide] at hmem
    rcases e.decide_cases i reply cache with ⟨-, heq⟩ | ⟨-, _, -, -, heq⟩ |
      ⟨-, -, cache', hcache, heq⟩
    · rw [heq] at hmem
      exact h key dec hmem
    · rw [heq] at hmem
      exact h key dec hmem
    · rw [heq] at hmem
      rcases hcache _ hmem with hold | hnew
      · exact h key dec hold
      · obtain ⟨rfl, rfl⟩ := Prod.mk.inj hnew
        refine ⟨i, hevent, rfl, fun reply' => ?_⟩
        simp only [evaluate, decideRunCreate, hweb]
        rfl

theorem CacheExact.invisible (hsha : NoCollision sha256 known)
    (hhex : ∀ domain v, Free nul (sha256 domain v)) (event : CacheEvent)
    (hevent : event.Digested sha256 known) (h : e.CacheExact sha256 known cache) :
    e.Invisible event cache := by
  cases event with
  | evict => trivial
  | decide i reply =>
    have huncached : e.uncaching.uncached i reply = e.uncached i reply := rfl
    rw [Invisible, policyDecide_nil, huncached, uncached, policyDecide]
    rcases e.decide_cases i reply cache with ⟨hbinding, heq⟩ | ⟨hbinding, _, -, hmem, heq⟩ |
      ⟨hbinding, -, _, -, heq⟩
    · rw [heq, if_pos hbinding]
    · -- the entry was evaluated for an input with the same key
      obtain ⟨j, hj, hkey, hdec⟩ := h _ _ hmem
      rw [heq, hbinding, evaluate_eq_of_cacheKey_eq hsha hhex hevent hj hkey.symm, hdec]
      rfl
    · rw [heq, hbinding]
      rfl

/-- Decisions of any stage, in any order and with any evictions between them, are those of the
engine without a cache. -/
theorem caching_invisible (e : Engine) (hweb : e.webhook = false) (sha256 : Sha256)
    (known : Value Decimal → Bool) (hsha : NoCollision sha256 known)
    (hhex : ∀ domain v, Free nul (sha256 domain v)) (events : List CacheEvent)
    (hevents : ∀ event ∈ events, event.Digested sha256 known) :
    Trace.Every e.cacheStep e.Invisible events [] :=
  Trace.every_of_invariant
    (fun event _ hevent hcache => CacheExact.step hweb event hevent hcache)
    (fun event _ hevent hcache => CacheExact.invisible hsha hhex event hevent hcache)
    (Trace.every_of_mem hevents) fun _ _ hmem => absurd hmem List.not_mem_nil

/-- A digest that is the same for all arguments. -/
def constantSha : Sha256 := fun _ _ => "0"

def payment : Value Decimal := .object [("to", .string "bob")]

def knownPayment : Value Decimal → Bool
  | .object [("to", .string "bob")] => true
  | _ => false

theorem noCollision_constantSha : NoCollision constantSha knownPayment := by
  have hpayment : ∀ v, knownPayment v → v = payment := by
    intro v hv
    unfold knownPayment at hv
    split at hv
    · rfl
    · cases hv
  intro v w hv hw _
  rw [hpayment v hv, hpayment w hw]

def payCall (tool : String) (args : Option (Value Decimal)) (argsMeta : Option (Json.Members Decimal)) :
    PolicyInput where
  stage := .toolCall
  tenantId := "acme"
  principal := "alice"
  agentId := "bot"
  runId := "r"
  generation := 1
  connector := "bank"
  tool := tool
  args := args
  argsMeta := argsMeta
  argsDigest := digestArgs constantSha (args.getD (.object []))

theorem digested_payCall (tool : String) :
    (payCall tool (some payment) none).Digested constantSha knownPayment :=
  ⟨(by decide : Free nul "acme"), (by decide : Free nul "bot"), (by decide : Free nul "alice"),
    (by decide : Free nul "bank"), fun _ => ⟨⟨List.nodup_singleton _, trivial, trivial⟩, rfl, rfl,
      fun h => by cases h⟩⟩

/-- Payments with an amount are denied, and everything else is allowed. -/
def amountEngine : Engine where
  static := none
  predicates := [{ id := "limit", tenantId := "acme", agentId := "", connector := "bank",
                   tool := "", path := "amount", op := .present, value := .null, effect := .deny,
                   reason := "", reasonCode := "" }]
  webhook := false
  mandatoryHITL := []
  caching := true
  defaultEffect := .allow
  failClosed := true

/-- The second decision is answered from the cache. -/
theorem caching_invisible_payCall :
    (amountEngine.hit (payCall "pay" (some payment) none) (Trace.run amountEngine.cacheStep
      [.decide (payCall "pay" (some payment) none) (.failed "")] [])).isSome = true ∧
    Trace.Every amountEngine.cacheStep amountEngine.Invisible
      [.decide (payCall "pay" (some payment) none) (.failed ""),
        .decide (payCall "pay" (some payment) none) (.failed ""), .evict (fun _ => true),
        .decide (payCall "pay\x00a" (some payment) none) (.failed "")] [] :=
  ⟨by decide +kernel, caching_invisible amountEngine rfl constantSha knownPayment
    noCollision_constantSha (fun _ _ => (by decide : Free nul "0")) _ (by
      intro event hevent
      simp only [List.mem_cons, List.not_mem_nil, or_false] at hevent
      rcases hevent with rfl | rfl | rfl | rfl
      · exact digested_payCall _
      · exact digested_payCall _
      · trivial
      · exact digested_payCall _)⟩

/-- Two calls without arguments have one digest, but the predicate reads the display copy. The
decision for the first is the answer to the second. -/
theorem display_copy_shared : (∀ argsMeta, (payCall "pay" none argsMeta).argsDigest =
      digestArgs constantSha ((payCall "pay" none argsMeta).args.getD (.object []))) ∧
    ¬ Trace.Every amountEngine.cacheStep amountEngine.Invisible
      [.decide (payCall "pay" none none) (.failed ""),
        .decide (payCall "pay" none (some [("amount", .null)])) (.failed "")] [] := by
  refine ⟨fun _ => rfl, ?_⟩
  rintro ⟨-, hsecond, -⟩
  have heffect := congrArg PolicyDecision.effect hsecond
  revert heffect
  decide +kernel

end Engine

end Runkite
