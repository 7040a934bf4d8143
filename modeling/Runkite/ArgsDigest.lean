import Runkite.PolicyEngine

/-!
# What the digest of the arguments decides

Two values with the same canonical form (`SameArgs`) are alike at every depth, up to the spelling
of numbers and the order of members (`SameArgs.shape`). A predicate does not see either, so an
evaluation of the policy depends on the arguments only through their canonical form
(`Engine.evaluate_congr`).

`SameCall` are two inputs with the same names and such arguments. Inputs with the same key in the
decision cache are of this kind if their names are free of the separator and no digests collide
(`sameCall_of_cacheKey_eq`).
-/

open Binary64 (Decimal)
open Json (Members Value traverseItems traverseMembers)
open Strings (Free eq_of_append_sep)

namespace Runkite

/-! ## Values with the same canonical form -/

/-- Values that their digests do not tell apart. -/
structure SameArgs (v w : Value Decimal) : Prop where
  left : v.Keyed
  right : w.Keyed
  canonical : canonicalDigestValue v = canonicalDigestValue w

/-- Values that are alike at the top, with parts that have the same canonical form. -/
inductive SameShape : Value Decimal → Value Decimal → Prop where
  | null : SameShape .null .null
  | bool (b : Bool) : SameShape (.bool b) (.bool b)
  | number {d d' : Decimal} (h : d.toRat = d'.toRat) : SameShape (.number d) (.number d')
  | string (s : String) : SameShape (.string s) (.string s)
  | array {vs ws : List (Value Decimal)} (h : List.Forall₂ SameArgs vs ws) :
    SameShape (.array vs) (.array ws)
  | object {ms ns : Members Decimal}
    (h : ∀ k, Option.Rel SameArgs (ms.lookup k) (ns.lookup k)) :
    SameShape (.object ms) (.object ns)

variable {v w : Value Decimal} {vs ws : List (Value Decimal)} {ms ns : Members Decimal}

theorem SameArgs.items : ∀ {vs ws : List (Value Decimal)} {cs : List (Value ℚ)},
    Json.KeyedItems vs → Json.KeyedItems ws →
    traverseItems (fun d => some d.toRat) Members.sortKeys vs = some cs →
    traverseItems (fun d => some d.toRat) Members.sortKeys ws = some cs →
    List.Forall₂ SameArgs vs ws
  | [], [], _, _, _, _, _ => .nil
  | [], w :: ws, _, _, _, hvs, hws => by
    cases hvs
    obtain ⟨c, -, hws⟩ := Option.bind_eq_some_iff.1 hws
    simp at hws
  | v :: vs, [], _, _, _, hvs, hws => by
    cases hws
    obtain ⟨c, -, hvs⟩ := Option.bind_eq_some_iff.1 hvs
    simp at hvs
  | v :: vs, w :: ws, _, hv, hw, hvs, hws => by
    obtain ⟨c, hc, hvs⟩ := Option.bind_eq_some_iff.1 hvs
    obtain ⟨_, hcs, rfl⟩ := Option.map_eq_some_iff.1 hvs
    obtain ⟨_, hc', hws⟩ := Option.bind_eq_some_iff.1 hws
    obtain ⟨_, hcs', heq⟩ := Option.map_eq_some_iff.1 hws
    obtain ⟨rfl, rfl⟩ := List.cons.inj heq
    exact .cons ⟨hv.1, hw.1, hc.trans hc'.symm⟩ (SameArgs.items hv.2 hw.2 hcs hcs')

theorem keyed_of_lookup {k : String} (hms : (Value.object ms).Keyed)
    (h : ms.lookup k = some v) : v.Keyed :=
  Json.keyedMembers_iff.1 hms.2 _ ((Members.lookup_eq_some_iff hms.1).1 h)

theorem SameArgs.members {cs ds : Members ℚ} (hms : (Value.object ms).Keyed)
    (hns : (Value.object ns).Keyed)
    (hcs : traverseMembers (fun d => some d.toRat) Members.sortKeys ms = some cs)
    (hds : traverseMembers (fun d => some d.toRat) Members.sortKeys ns = some ds)
    (hsort : Members.sortKeys cs = Members.sortKeys ds) (k : String) :
    Option.Rel SameArgs (ms.lookup k) (ns.lookup k) := by
  have hdistinct : Members.Distinct cs := Json.distinct_traverseMembers hms.1 hcs
  have hperm : List.Perm cs ds := by
    have hleft := Members.perm_sortKeys cs
    rw [hsort] at hleft
    exact hleft.symm.trans (Members.perm_sortKeys ds)
  -- each side's member has the canonical form that the sorted members have under the key
  have hlookup : (ms.lookup k).bind canonicalDigestValue =
      (ns.lookup k).bind canonicalDigestValue :=
    calc (ms.lookup k).bind canonicalDigestValue
        = cs.lookup k := (Json.lookup_traverseMembers k hcs).symm
      _ = ds.lookup k := Members.lookup_eq_of_perm hdistinct hperm k
      _ = (ns.lookup k).bind canonicalDigestValue := Json.lookup_traverseMembers k hds
  cases hv : ms.lookup k with
  | none =>
    cases hw : ns.lookup k with
    | none => exact .none
    | some w =>
      obtain ⟨c, hc⟩ := exists_canonicalDigestValue w
      simp [hv, hw, hc] at hlookup
  | some v =>
    cases hw : ns.lookup k with
    | none =>
      obtain ⟨c, hc⟩ := exists_canonicalDigestValue v
      simp [hv, hw, hc] at hlookup
    | some =>
      simp only [hv, hw, Option.bind_some] at hlookup
      exact .some ⟨keyed_of_lookup hms hv, keyed_of_lookup hns hw, hlookup⟩

theorem SameArgs.shape (h : SameArgs v w) : SameShape v w := by
  obtain ⟨c, hw⟩ := exists_canonicalDigestValue w
  have hv : canonicalDigestValue v = some c := h.canonical.trans hw
  have hleft := h.1
  have hright := h.2
  unfold canonicalDigestValue at hv hw
  cases v with
  | null =>
    cases hv
    cases w <;> simp [Json.traverse] at hw
    exact .null
  | bool =>
    cases hv
    cases w <;> simp [Json.traverse] at hw
    exact hw ▸ .bool _
  | number =>
    cases hv
    cases w <;> simp [Json.traverse] at hw
    exact .number hw.symm
  | string =>
    cases hv
    cases w <;> simp [Json.traverse] at hw
    exact hw ▸ .string _
  | array =>
    obtain ⟨cs, hcs, rfl⟩ := Option.map_eq_some_iff.1 hv
    cases w <;> simp [Json.traverse] at hw
    exact .array (SameArgs.items hleft hright hcs hw)
  | object =>
    obtain ⟨_, hcs, rfl⟩ := Option.map_eq_some_iff.1 hv
    cases w <;> simp [Json.traverse] at hw
    obtain ⟨_, hds, hsort⟩ := hw
    exact .object (SameArgs.members hleft hright hcs hds hsort.symm)

/-! ## Predicates -/

/-- The comparison of two literals, one of them by its value. -/
def equalExact (q : ℚ) : Json.Number → Bool
  | .literal d => q = d.toRat
  | _ => false

section

variable (h : SameArgs v w) (x : Value Json.Number)
include h

theorem SameArgs.equalWith : v.equalWith (fun d n => Json.Number.equal (.literal d) n) x =
      w.equalWith (fun d n => Json.Number.equal (.literal d) n) x := by
  have hexact : ∀ {d : Decimal} {q : ℚ}, some d.toRat = some q →
      equalExact q = fun n => Json.Number.equal (.literal d) n := by
    intro d q hq
    cases hq
    funext n
    cases n <;> rfl
  obtain ⟨c, hw⟩ := exists_canonicalDigestValue w
  have hv : canonicalDigestValue v = some c := h.canonical.trans hw
  rw [← Json.equalWith_traverse Members.perm_sortKeys hexact hv x,
    ← Json.equalWith_traverse Members.perm_sortKeys hexact hw x]

theorem SameArgs.valuesEqual_eq : valuesEqual v x = valuesEqual w x := by
  have htree := h.equalWith x
  cases h.shape with
  | null | bool | string => rfl
  | number hd => cases x <;> simp [valuesEqual, hd]
  | array | object =>
    cases x with
    | number => rfl
    | _ => exact htree

theorem SameArgs.compareNumbers_eq : compareNumbers v x = compareNumbers w x := by
  cases h.shape with
  | number hd => cases x <;> simp [compareNumbers, hd]
  | _ => rfl

end

theorem any_of_forall₂ {p : Value Decimal → Bool} (h : List.Forall₂ SameArgs vs ws)
    (hp : ∀ {v w}, SameArgs v w → p v = p w) : vs.any p = ws.any p := by
  induction h with
  | nil => rfl
  | cons hv _ ih => simp [hp hv, ih]

/-- The condition of a predicate does not tell the values apart. -/
theorem SameArgs.test_eq (h : SameArgs v w) (p : Predicate) : p.test v = p.test w := by
  have hequal := h.valuesEqual_eq
  have horder := h.compareNumbers_eq
  cases hop : p.op with
  | isIn =>
    simp only [Predicate.test, hop]
    have heq : valuesEqual v = valuesEqual w := funext hequal
    rw [heq]
  | contains =>
    simp only [Predicate.test, hop]
    cases h.shape with
    | array hitems => exact any_of_forall₂ hitems fun hv => hv.valuesEqual_eq p.value
    | _ => rfl
  | _ => simp [Predicate.test, hop, hequal, horder]

theorem rel_getElem? (h : List.Forall₂ SameArgs vs ws) (n : ℕ) :
    Option.Rel SameArgs vs[n]? ws[n]? := by
  induction h generalizing n with
  | nil => exact .none
  | cons hv _ ih =>
    cases n with
    | zero => exact .some hv
    | succ n => exact ih n

theorem rel_bind {a b : Option (Value Decimal)} {f : Value Decimal → Option (Value Decimal)}
    (h : Option.Rel SameArgs a b) (hf : ∀ {v w}, SameArgs v w → Option.Rel SameArgs (f v) (f w)) :
    Option.Rel SameArgs (a.bind f) (b.bind f) := by
  cases h with
  | none => exact .none
  | some h => exact hf h

theorem SameArgs.lookupSegments : ∀ (segs : List String) {v w : Value Decimal}, SameArgs v w →
    Option.Rel SameArgs (lookupSegments segs v) (lookupSegments segs w)
  | [], _, _, h => .some h
  | seg :: segs, v, w, h => by
    unfold Runkite.lookupSegments
    split_ifs
    · exact .none
    · cases h.shape with
      | array hitems =>
        cases Strings.atoi seg with
        | none => exact .none
        | some =>
          dsimp only
          split_ifs
          · exact .none
          · exact rel_bind (rel_getElem? hitems _) (SameArgs.lookupSegments segs)
      | object hmembers => exact rel_bind (hmembers seg) (SameArgs.lookupSegments segs)
      | _ => exact .none

theorem SameArgs.matchesArgs_eq (h : SameArgs v w) (p : Predicate) :
    p.matchesArgs v = p.matchesArgs w := by
  unfold Predicate.matchesArgs lookupPath
  have hrel := h.lookupSegments (Strings.split '.' p.path)
  generalize Runkite.lookupSegments (Strings.split '.' p.path) v = a at hrel ⊢
  generalize Runkite.lookupSegments (Strings.split '.' p.path) w = b at hrel ⊢
  cases hrel with
  | none => rfl
  | some hsame => exact hsame.test_eq p

/-! ## Calls -/

/-- Two inputs of one call : the same names, and arguments that the digest does not tell apart. -/
structure SameCall (i j : PolicyInput) : Prop where
  stage : i.stage = j.stage
  tenantId : i.tenantId = j.tenantId
  agentId : i.agentId = j.agentId
  principal : i.principal = j.principal
  connector : i.connector = j.connector
  tool : i.tool = j.tool
  args : SameArgs (predicateArgs i) (predicateArgs j)

variable {i j : PolicyInput}

namespace SameCall

theorem matchedPredicates_eq (h : SameCall i j) (rules : List Predicate) :
    matchedPredicates rules i = matchedPredicates rules j := by
  have hrule : ∀ p : Predicate, (p.matchesScope i && p.matchesArgs (predicateArgs i)) =
      (p.matchesScope j && p.matchesArgs (predicateArgs j)) := by
    intro p
    rw [h.args.matchesArgs_eq, Predicate.matchesScope, Predicate.matchesScope, h.tenantId,
      h.connector, h.agentId, h.tool]
  simp [matchedPredicates, hrule]

theorem staticDecide_eq (h : SameCall i j) (grants : List Grant) :
    staticDecide grants i = staticDecide grants j := by
  have hcovers : Grant.covers i = Grant.covers j := by
    funext g
    simp [Grant.covers, h.tenantId, h.agentId, h.connector]
  simp [staticDecide, hcovers, h.stage, h.tool]

/-- An evaluation depends on the arguments only through their canonical form. -/
theorem evaluate_eq (h : SameCall i j) (e : Engine) (reply : WebhookReply) :
    e.evaluate i reply = e.evaluate j reply := by
  have hstatic : e.staticLayer i = e.staticLayer j := by
    simp [Engine.staticLayer, h.staticDecide_eq]
  simp [Engine.evaluate, applyPredicates, h.stage, hstatic, h.matchedPredicates_eq]

end SameCall

/-! ## Keys -/

/-- No name of the input holds the separator of the cache's keys. -/
def PolicyInput.plain (i : PolicyInput) : Bool :=
  [i.tenantId, i.agentId, i.principal, i.connector, i.tool].all fun name => Free nul name

theorem Stage.free_text (stage : Stage) : Free nul stage.text := by
  cases stage <;> decide

theorem Stage.text_injective : Function.Injective Stage.text := by
  intro a b h
  cases a <;> cases b <;> first | rfl | exact absurd h (by decide)

/-- The stage can be read off a key, whatever the names. -/
theorem stage_of_cacheKey_eq (h : cacheKey i = cacheKey j) : i.stage = j.stage := by
  unfold cacheKey sep at h
  exact Stage.text_injective (eq_of_append_sep i.stage.free_text j.stage.free_text h).1

/-- The arguments do not collide with others under the digest. -/
def NoCollision (sha256 : Sha256) (known : Value Decimal → Bool) : Prop :=
  ∀ v w, known v = true → known w = true → digestArgs sha256 v = digestArgs sha256 w →
    canonicalDigestValue v = canonicalDigestValue w

/-- The input of a tool call with its arguments in full. -/
structure PolicyInput.Bound (sha256 : Sha256) (known : Value Decimal → Bool) (i : PolicyInput) :
    Prop where
  plain : i.plain = true
  args : ∃ v, i.args = some v ∧ v.Keyed ∧ known v = true ∧ i.argsDigest = digestArgs sha256 v

theorem sameCall_of_cacheKey_eq {sha256 : Sha256} {known : Value Decimal → Bool}
    (hsha : NoCollision sha256 known) (hi : i.Bound sha256 known)
    (hj : j.Bound sha256 known) (h : cacheKey i = cacheKey j) : SameCall i j := by
  have hstage := stage_of_cacheKey_eq h
  obtain ⟨hit, hia, hip, hic, hil⟩ : Free nul i.tenantId ∧ Free nul i.agentId ∧
      Free nul i.principal ∧ Free nul i.connector ∧ Free nul i.tool := by
    simpa [PolicyInput.plain] using hi.plain
  obtain ⟨hjt, hja, hjp, hjc, hjl⟩ : Free nul j.tenantId ∧ Free nul j.agentId ∧
      Free nul j.principal ∧ Free nul j.connector ∧ Free nul j.tool := by
    simpa [PolicyInput.plain] using hj.plain
  unfold cacheKey sep at h
  obtain ⟨-, h⟩ := eq_of_append_sep i.stage.free_text j.stage.free_text h
  obtain ⟨htenant, h⟩ := eq_of_append_sep hit hjt h
  obtain ⟨hagent, h⟩ := eq_of_append_sep hia hja h
  obtain ⟨hprincipal, h⟩ := eq_of_append_sep hip hjp h
  obtain ⟨hconnector, h⟩ := eq_of_append_sep hic hjc h
  obtain ⟨htool, hdigest⟩ := eq_of_append_sep hil hjl h
  obtain ⟨v, hv, hvk, hvknown, hvd⟩ := hi.args
  obtain ⟨w, hw, hwk, hwknown, hwd⟩ := hj.args
  refine ⟨hstage, htenant, hagent, hprincipal, hconnector, htool, ?_⟩
  simp only [predicateArgs, hv, hw]
  exact ⟨hvk, hwk, hsha v w hvknown hwknown (by rw [← hvd, ← hwd, hdigest])⟩

end Runkite
