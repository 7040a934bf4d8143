import Runkite.JsonStruct
import Runkite.RunsApi

/-!
# The usage a run reports

A run may report its usage under `usage` in its output. The cost endpoint reads it with
`extractRunUsage`, the meter with `extractRunUsageWithModel`, which also reads the model : a model that
is no string makes it read nothing at all.

`parseUsageWithModel_eq` : the second reads what the first does, where the model fits.

`Output` keeps of a number whether it is written as an integer, since a field of type `int64` takes
no other literal. Counts are machine integers, and their sum wraps around.
-/

open Binary64 (Decimal)
open Json (StructField Members Value both decodeStruct embed)

namespace Runkite

/-! ## Outputs -/

/-- A number as it is written. -/
inductive Literal where
  | integer (n : ℤ)
  /-- With a fraction or an exponent. -/
  | decimal (d : Decimal)

/-- `strconv.ParseInt(s, 10, 64)`. -/
def Literal.int64 : Literal → Option ℤ
  | .integer n => if IsInt64 n then some n else none
  | .decimal _ => none

/-- `strconv.ParseFloat(s, 64)`. -/
def Literal.float64 : Literal → Option ℚ
  | .integer n => Binary64.ofRat n
  | .decimal d => Binary64.ofRat d.toRat

/-- The output of a run; a run without one has the empty text. -/
abbrev Output := Option (Value Literal)

structure RunUsage where
  promptTokens : ℤ := 0
  completionTokens : ℤ := 0
  totalTokens : ℤ := 0
  costUsd : ℚ := 0
  unmetered : Bool := false
deriving DecidableEq

variable {σ : Type}

/-- A member of type `int64`. -/
def int64Member (name : String) (set : ℤ → σ → σ) : StructField Literal σ :=
  ⟨name, fun v s =>
    match v with
    | .number l => l.int64.map fun n => set n s
    | _ => none⟩

/-- A member of type `float64`. -/
def float64Member (name : String) (set : ℚ → σ → σ) : StructField Literal σ :=
  ⟨name, fun v s =>
    match v with
    | .number l => l.float64.map fun x => set x s
    | _ => none⟩

/-- A member of type `bool`. -/
def boolMember (name : String) (set : Bool → σ → σ) : StructField Literal σ :=
  ⟨name, fun v s =>
    match v with
    | .bool b => some (set b s)
    | _ => none⟩

/-- A member of type `string`. -/
def stringMember (name : String) (set : String → σ → σ) : StructField Literal σ :=
  ⟨name, fun v s =>
    match v with
    | .string x => some (set x s)
    | _ => none⟩

def usageFields : List (StructField Literal RunUsage) :=
  [int64Member "prompt_tokens" fun n u => { u with promptTokens := n },
    int64Member "completion_tokens" fun n u => { u with completionTokens := n },
    int64Member "total_tokens" fun n u => { u with totalTokens := n },
    float64Member "cost_usd" fun x u => { u with costUsd := x },
    boolMember "unmetered" fun b u => { u with unmetered := b }]

def modelFields : List (StructField Literal String) := [stringMember "model" fun x _ => x]

/-- A struct whose only field is a struct under `usage`. -/
def underUsage {σ : Type} (fields : List (StructField Literal σ)) : List (StructField Literal σ) :=
  [⟨"usage", decodeStruct fields⟩]

def parseUsage (output : Value Literal) : Option RunUsage :=
  decodeStruct (underUsage usageFields) output {}

/-- The model that the usage names, if it fits. -/
def parseModel (output : Value Literal) : Option String :=
  decodeStruct (underUsage modelFields) output ""

def parseUsageWithModel (output : Value Literal) : Option (RunUsage × String) :=
  decodeStruct (underUsage (embed usageFields modelFields)) output ({}, "")

/-- The total that is filled in if only its parts are reported. -/
def RunUsage.filled (u : RunUsage) : RunUsage :=
  if u.totalTokens = 0 && (0 < u.promptTokens || 0 < u.completionTokens) then
    { u with totalTokens := int64 (u.promptTokens + u.completionTokens) }
  else u

def extractRunUsage (output : Output) : RunUsage :=
  ((output.bind parseUsage).map RunUsage.filled).getD {}

def extractRunUsageWithModel (output : Output) : RunUsage × String :=
  ((output.bind parseUsageWithModel).map fun p => (p.1.filled, p.2)).getD ({}, "")

/-! ## The two readings -/

/-- The usage with its model is the usage and the model. -/
theorem parseUsageWithModel_eq (output : Value Literal) :
    parseUsageWithModel output = both (parseUsage output) (parseModel output) := by
  have hnames : ∀ f ∈ usageFields, ∀ g ∈ modelFields, Json.foldName f.name ≠ Json.foldName g.name := by
    decide
  have hsplits : Json.Splits (underUsage (embed usageFields modelFields)) (underUsage usageFields)
      (underUsage modelFields) := Json.splits_singleton rfl rfl fun v u model =>
    Json.decodeStruct_splits (Json.splits_embed hnames) v u model
  exact Json.decodeStruct_splits hsplits output {} ""

/-- The counts are machine integers. -/
structure RunUsage.InRange (u : RunUsage) : Prop where
  prompt : IsInt64 u.promptTokens
  completion : IsInt64 u.completionTokens
  total : IsInt64 u.totalTokens

theorem Literal.isInt64_of_int64 {l : Literal} {n : ℤ} (h : l.int64 = some n) : IsInt64 n := by
  cases l with
  | integer =>
    simp only [Literal.int64] at h
    split_ifs at h with hm
    exact Option.some.inj h ▸ hm
  | decimal => cases h

theorem inRange_of_parseUsage {output : Value Literal} {u : RunUsage}
    (h : parseUsage output = some u) : u.InRange := by
  have hzero : RunUsage.InRange {} := ⟨by decide, by decide, by decide⟩
  have hint : ∀ {name : String} {set : ℤ → RunUsage → RunUsage},
      (∀ n s, IsInt64 n → s.InRange → (set n s).InRange) →
      ∀ v s t, (int64Member name set).store v s = some t → s.InRange → t.InRange := by
    intro name set hset v s t hstore hs
    cases v with
    | number =>
      obtain ⟨n, hn, rfl⟩ := Option.map_eq_some_iff.1 hstore
      exact hset n s (Literal.isInt64_of_int64 hn) hs
    | _ => cases hstore
  have hfields : ∀ f ∈ usageFields, ∀ v s t, f.store v s = some t → s.InRange → t.InRange := by
    simp only [usageFields, List.forall_mem_cons]
    refine ⟨hint fun n s hn hs => ⟨hn, hs.completion, hs.total⟩,
      hint fun n s hn hs => ⟨hs.prompt, hn, hs.total⟩,
      hint fun n s hn hs => ⟨hs.prompt, hs.completion, hn⟩, ?_, ?_, ?_⟩
    · intro v s t hstore hs
      cases v with
      | number =>
        obtain ⟨x, -, rfl⟩ := Option.map_eq_some_iff.1 hstore
        exact ⟨hs.prompt, hs.completion, hs.total⟩
      | _ => cases hstore
    · intro v s t hstore hs
      cases v with
      | bool =>
        cases hstore
        exact ⟨hs.prompt, hs.completion, hs.total⟩
      | _ => cases hstore
    · intro f hf
      cases hf
  refine Json.decodeStruct_invariant (fun f hf v s t hstore hs => ?_) h hzero
  obtain rfl := List.mem_singleton.1 hf
  exact Json.decodeStruct_invariant hfields hstore hs

end Runkite
