import Runkite.Json
import Runkite.Strings

/-!
# Binding the arguments of a tool call

`bindArgsStrict` turns the arguments of a tool call into three views : the parsed value, on
which predicates are evaluated, its digest, under which decisions are cached and approvals
recorded, and a redacted map for display, which is also what a pending action keeps.

The parsed value keeps its numbers as literals, and equal digests mean equal values up to the
spelling of numbers and the order of members (`canonicalDigestValue`). SHA-256 is a parameter.

The display copy is cut at a depth and loses keys until it fits (`dropToFit`), in the order in which a
map happens to be iterated.
-/

open Binary64 (Decimal)
open Json (Members Text Value traverse)
open Strings (toLower trimSpace truncateRunes)

namespace Runkite

/-- The hexadecimal SHA-256 of a text that is a domain followed by a JSON document, whose
numbers are written in one way only. -/
abbrev Sha256 := String → Value ℚ → String

/-! ## Parsing -/

mutual

/-- No object of the tree repeats a member. -/
def uniqueValue : Value Decimal → Bool
  | .array vs => uniqueItems vs
  | .object ms => (ms.map Prod.fst).Nodup && uniqueMembers ms
  | _ => true

def uniqueItems : List (Value Decimal) → Bool
  | [] => true
  | v :: vs => uniqueValue v && uniqueItems vs

def uniqueMembers : List (String × Value Decimal) → Bool
  | [] => true
  | (_, v) :: ms => uniqueValue v && uniqueMembers ms

end

def decodeUnique : Text → Option (Value Decimal)
  | .document v => if uniqueValue v then some v else none
  | _ => none

/-- Missing, empty and null arguments are the empty object. -/
def parseCallArguments : Text → Option (Value Decimal)
  | .empty => some (.object [])
  | .document .null => some (.object [])
  | raw => decodeUnique raw

/-! ## The digest -/

/-- The value that is hashed : numbers without their spelling, keys sorted. -/
def canonicalDigestValue (v : Value Decimal) : Option (Value ℚ) :=
  traverse (fun d => some d.toRat) Members.sortKeys v

def digestArgs (sha256 : Sha256) (v : Value Decimal) : String :=
  sha256 "runkite-policy-args-v2\x00" ((canonicalDigestValue v).getD (.object []))

/-! ## The display copy -/

def argsMetaMaxDepth : ℕ := 3
def argsStringMaxRunes : ℕ := 256
def argsMetaOmitted : Value Decimal := .string "<omitted>"

def secretArgKey (k : String) : Bool :=
  toLower (trimSpace k) ∈ ["password", "token", "secret", "authorization", "api_key"]

mutual

def copyRedactedValue (depth : ℕ) : Value Decimal → Value Decimal
  | .object ms =>
    if depth > argsMetaMaxDepth then argsMetaOmitted else .object (copyRedactedMap (depth + 1) ms)
  | .array vs =>
    -- the items are one level deeper, and the array goes as a whole if they are too deep
    if depth + 1 > argsMetaMaxDepth then argsMetaOmitted
    else .array (copyRedactedItems (depth + 1) vs)
  | .string s =>
    if depth > argsMetaMaxDepth then argsMetaOmitted
    else .string (truncateRunes s argsStringMaxRunes)
  | v => if depth > argsMetaMaxDepth then argsMetaOmitted else v

def copyRedactedItems (depth : ℕ) : List (Value Decimal) → List (Value Decimal)
  | [] => []
  | v :: vs => copyRedactedValue depth v :: copyRedactedItems depth vs

def copyRedactedMap (depth : ℕ) : List (String × Value Decimal) → List (String × Value Decimal)
  | [] => []
  | (k, v) :: ms =>
    if secretArgKey k then copyRedactedMap depth ms
    else (k, copyRedactedValue depth v) :: copyRedactedMap depth ms

end

/-- The copy of an object; anything else and the empty object have none. The keys dropped to
bring the copy under its size limit are arbitrary ones, so they are a parameter. An empty copy
is always within the limit. -/
def redactArgs (oversize : List String) : Value Decimal → Option (Members Decimal)
  | .object [] => none
  | .object ms => some ((copyRedactedMap 1 ms).filter fun m => m.1 ∉ oversize)
  | _ => none

/-- The three views of the arguments. -/
structure BoundArgs where
  args : Value Decimal
  digest : String
  argsMeta : Option (Members Decimal)

def bindArgsStrict (sha256 : Sha256) (oversize : List String) (raw : Text) : Option BoundArgs :=
  (parseCallArguments raw).map fun v => ⟨v, digestArgs sha256 v, redactArgs oversize v⟩

/-- The digest of missing arguments, which `BindArgs(nil)` gives. -/
def emptyDigest (sha256 : Sha256) : String := digestArgs sha256 (.object [])

/-! ## What binding keeps -/

mutual

theorem keyed_of_uniqueValue : ∀ {v : Value Decimal}, uniqueValue v → v.Keyed
  | .null, _ | .bool _, _ | .number _, _ | .string _, _ => trivial
  | .array _, h => keyedItems_of_uniqueItems h
  | .object _, h => by
    rw [uniqueValue, Bool.and_eq_true, decide_eq_true_eq] at h
    exact ⟨h.1, keyedMembers_of_uniqueMembers h.2⟩

theorem keyedItems_of_uniqueItems :
    ∀ {vs : List (Value Decimal)}, uniqueItems vs → Json.KeyedItems vs
  | [], _ => trivial
  | _ :: _, h => by
    rw [uniqueItems, Bool.and_eq_true] at h
    exact ⟨keyed_of_uniqueValue h.1, keyedItems_of_uniqueItems h.2⟩

theorem keyedMembers_of_uniqueMembers :
    ∀ {ms : Members Decimal}, uniqueMembers ms → Json.KeyedMembers ms
  | [], _ => trivial
  | (_, _) :: _, h => by
    rw [uniqueMembers, Bool.and_eq_true] at h
    exact ⟨keyed_of_uniqueValue h.1, keyedMembers_of_uniqueMembers h.2⟩

end

/-- What is accepted as arguments has distinct keys everywhere. -/
theorem keyed_of_parseCallArguments {raw : Text} {v : Value Decimal}
    (h : parseCallArguments raw = some v) : v.Keyed := by
  have hdecode : ∀ {w : Value Decimal}, decodeUnique (.document w) = some v → v.Keyed := by
    intro w hw
    rw [decodeUnique] at hw
    split_ifs at hw with hu
    exact Option.some.inj hw ▸ keyed_of_uniqueValue hu
  unfold parseCallArguments at h
  split at h
  · cases h
    exact ⟨List.nodup_nil, trivial⟩
  · cases h
    exact ⟨List.nodup_nil, trivial⟩
  · cases raw with
    | document => exact hdecode h
    | _ => cases h

/-- Values in memory can be hashed. -/
theorem exists_canonicalDigestValue (v : Value Decimal) : ∃ c, canonicalDigestValue v = some c :=
  Option.isSome_iff_exists.1 (Json.isSome_traverse (Json.Value.all_of_forall (fun _ => rfl) v))

/-! ## The size of the display copy -/

def argsMetaMaxBytes : ℕ := 4096

/-- The length of a map in JSON, from that of the text between its braces, in which the numbers keep
their spelling. -/
def encodedLength (members : Members Decimal → ℕ) (out : Members Decimal) : ℕ :=
  if out = [] then 2 else members out + 2

/-- The loop of `redactArgs`. The iteration over the map gives any of its keys first. -/
def dropToFit (members pick : Members Decimal → ℕ) (out : Members Decimal) : Members Decimal :=
  if encodedLength members out ≤ argsMetaMaxBytes then out
  else match _h : out[pick out % out.length]? with
    | none => [("_", argsMetaOmitted)]
    | some m => dropToFit members pick (out.erase m.1)
termination_by out.length
decreasing_by
  exact List.length_filter_lt_length_iff_exists.2 ⟨m, List.mem_of_getElem? _h, by simp⟩

/-- `redactArgs`, with the loop that chooses the keys to drop. -/
def redactArgsToFit (members pick : Members Decimal → ℕ) (v : Value Decimal) :
    Option (Members Decimal) :=
  (redactArgs [] v).map (dropToFit members pick)

theorem exists_dropToFit (members pick : Members Decimal → ℕ) (out : Members Decimal) :
    (∃ oversize : List String,
      dropToFit members pick out = out.filter fun m => m.1 ∉ oversize) ∧
    encodedLength members (dropToFit members pick out) ≤ argsMetaMaxBytes := by
  fun_induction dropToFit members pick out with
  | case1 out hfits => exact ⟨⟨[], by simp⟩, hfits⟩
  | case2 out hlarge hnone =>
    -- the empty map fits
    have hnil : out = [] := by
      by_contra hne
      exact absurd (List.getElem?_eq_none_iff.1 hnone)
        (Nat.mod_lt _ (List.length_pos_iff.2 hne)).not_ge
    exact absurd (by rw [encodedLength, if_pos hnil]; decide) hlarge
  | case3 out _ m _ ih =>
    obtain ⟨⟨oversize, hfilter⟩, hfits⟩ := ih
    refine ⟨⟨m.1 :: oversize, ?_⟩, hfits⟩
    rw [hfilter, Members.erase, List.filter_filter]
    simp [Bool.and_comm]

/-- A value at some depth of another one. -/
inductive Within (x : Value Decimal) : Value Decimal → Prop
  | here : Within x x
  | item {v : Value Decimal} {vs : List (Value Decimal)} (hv : v ∈ vs) (h : Within x v) :
    Within x (.array vs)
  | member {m : String × Value Decimal} {ms : Members Decimal} (hm : m ∈ ms)
    (h : Within x m.2) : Within x (.object ms)

theorem copyRedactedItems_eq (depth : ℕ) (vs : List (Value Decimal)) :
    copyRedactedItems depth vs = vs.map (copyRedactedValue depth) := by
  induction vs <;> simp_all [copyRedactedItems]

theorem copyRedactedMap_eq (depth : ℕ) (ms : Members Decimal) : copyRedactedMap depth ms =
    (ms.filter fun m => !secretArgKey m.1).map fun m => (m.1, copyRedactedValue depth m.2) := by
  induction ms with
  | nil => rfl
  | cons m ms ih =>
    rw [copyRedactedMap, ih]
    split_ifs with hsecret <;> simp [hsecret]

/-- A copy is cut off or made of copies. -/
theorem copyRedactedValue_cases (depth : ℕ) (v : Value Decimal) :
    copyRedactedValue depth v = argsMetaOmitted ∨ copyRedactedValue depth v = match v with
      | .object ms => .object ((ms.filter fun m => !secretArgKey m.1).map fun m =>
        (m.1, copyRedactedValue (depth + 1) m.2))
      | .array vs => .array (vs.map (copyRedactedValue (depth + 1)))
      | .string s => .string (truncateRunes s argsStringMaxRunes)
      | v => v := by
  cases v <;> rw [copyRedactedValue.eq_def] <;> dsimp only <;> split_ifs <;>
    simp [copyRedactedItems_eq, copyRedactedMap_eq]

/-- What is found in a copy is a copy of something in the value. -/
theorem Within.of_copy {x w : Value Decimal} (h : Within x w) :
    ∀ {depth v}, w = copyRedactedValue depth v →
      ∃ depth' y, Within y v ∧ x = copyRedactedValue depth' y := by
  induction h with
  | here => exact fun h => ⟨_, _, .here, h⟩
  | item hw _ ih | member hw _ ih =>
    intro depth v hv
    rcases copyRedactedValue_cases depth v with heq | heq <;> rw [heq] at hv
    · cases hv
    · cases v <;> cases hv
      obtain ⟨v, hv, rfl⟩ := List.mem_map.1 hw
      obtain ⟨depth', y, hy, hx⟩ := ih rfl
      first
        | exact ⟨depth', y, .item hv hy, hx⟩
        | exact ⟨depth', y, .member (List.mem_of_mem_filter hv) hy, hx⟩

/-- What is displayed of arguments fits, keeps no secret and quotes the arguments. -/
theorem redactArgs_display (members pick : Members Decimal → ℕ) (v : Value Decimal) :
    redactArgsToFit members pick v = none ∨ ∃ out, redactArgsToFit members pick v = some out ∧
      (∃ oversize, redactArgs oversize v = some out) ∧
      encodedLength members out ≤ argsMetaMaxBytes ∧
      (∀ ms, Within (.object ms) (.object out) → ∀ m ∈ ms, secretArgKey m.1 = false) ∧
      ∀ s, Within (.string s) (.object out) →
        s = "<omitted>" ∨ ∃ s', Within (.string s') v ∧ s.toList <+: s'.toList := by
  unfold redactArgsToFit
  rcases v with _ | _ | _ | _ | _ | _ | ⟨m, ms⟩
  case object.cons =>
    generalize hms : m :: ms = all
    have hcopy : ∀ oversize, redactArgs oversize (.object all) =
        some ((copyRedactedMap 1 all).filter fun m => m.1 ∉ oversize) := hms ▸ fun _ => rfl
    obtain ⟨⟨oversize, hout⟩, hfits⟩ := exists_dropToFit members pick (copyRedactedMap 1 all)
    -- what is left is the copy of what is left of the arguments
    have hleft : .object (dropToFit members pick (copyRedactedMap 1 all)) =
        copyRedactedValue 0 (.object (all.filter fun m => m.1 ∉ oversize)) := by
      rw [hout, copyRedactedValue, if_neg (by decide), copyRedactedMap_eq, copyRedactedMap_eq,
        List.filter_map, List.filter_filter, List.filter_filter]
      simp [Bool.and_comm]
    refine .inr ⟨_, by simp [hcopy], ⟨oversize, by rw [hcopy, hout]⟩, hfits,
      fun ms hms => ?_, fun s hs => ?_⟩
    · obtain ⟨depth, y, -, hy⟩ := hms.of_copy hleft
      rcases copyRedactedValue_cases depth y with heq | heq <;> rw [heq] at hy
      · cases hy
      · cases y <;> cases hy
        intro m hm
        obtain ⟨_, hm', rfl⟩ := List.mem_map.1 hm
        simpa using (List.mem_filter.1 hm').2
    · obtain ⟨depth, y, hmem, hy⟩ := hs.of_copy hleft
      rcases copyRedactedValue_cases depth y with heq | heq <;> rw [heq] at hy
      · exact .inl (Value.string.inj hy)
      · cases y <;> cases hy
        obtain _ | _ | ⟨hm, hwithin⟩ := hmem
        refine .inr ⟨_, .member (List.mem_of_mem_filter hm) hwithin, ?_⟩
        rw [truncateRunes, String.toList_ofList]
        exact List.take_prefix _ _
  all_goals exact .inl rfl

end Runkite
