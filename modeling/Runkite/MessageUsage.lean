import Mathlib

/-!
# The token usage of a run's messages

The runner adds up the usage of the AI messages in the final list of a thread. To leave out what
earlier runs were billed for it skips the messages whose id was there before the run, and also as
many messages from the front as there were. The two agree as long as a run only appends. Where it
has dropped messages, new ones stand among those places and go unbilled (`usage_exact_iff`).
-/

namespace Runkite.Usage

/-- A usage object, its counts and costs zero where it has none. -/
structure UsageDict where
  count : String → ℤ
  cost : String → ℚ
  model : String

/-- A message, an object or a dict. An id that it lacks is empty, and so is a usage object that is. -/
structure Message where
  id : String
  type : String
  hasUsageMetadata : Bool
  /-- `usage_metadata`, and of a dict also `usage`. -/
  usageMetadata : Option UsageDict
  /-- `model_name` or `model` of the response metadata. -/
  responseModel : String
  /-- `token_usage` or `usage` of the response metadata. -/
  tokenUsage : Option UsageDict

/-- The first that is not zero, of what `or` joins. -/
def UsageDict.firstOf (u : UsageDict) (keys : List String) : ℤ :=
  ((keys.map u.count).find? (· ≠ 0)).getD 0

/-- Prompt and completion tokens, the model and the cost. -/
def usageFromMessage (msg : Message) : (ℤ × ℤ) × String × ℚ :=
  match msg.usageMetadata.or msg.tokenUsage with
  | none => ((0, 0), msg.responseModel, 0)
  | some um =>
    let prompt := um.firstOf ["input_tokens", "prompt_tokens", "promptTokenCount"]
    let completion := um.firstOf ["output_tokens", "completion_tokens", "candidatesTokenCount"]
    (if prompt = 0 ∧ completion = 0 then (um.firstOf ["total_tokens", "totalTokenCount"], 0)
      else (prompt, completion),
      if msg.responseModel = "" then um.model else msg.responseModel,
      if um.cost "cost" ≠ 0 then um.cost "cost" else um.cost "total_cost")

/-- What stands in a list of messages. A dict that is no message has what it contains : its `messages`,
or else the values of all its keys. -/
inductive Chunk where
  | object (msg : Message)
  | dict (msg : Message) (items : List Chunk)
  | list (items : List Chunk)

/-- `_message_id`. -/
def Chunk.id : Chunk → String
  | .object msg | .dict msg _ => msg.id
  | .list _ => ""

mutual

def walkMessages : Chunk → List Message
  | .object msg =>
    if msg.type = "ai" || msg.type = "assistant" || msg.hasUsageMetadata then [msg] else []
  | .dict msg items =>
    if msg.type = "ai" || msg.type = "AIMessage" || msg.hasUsageMetadata then [msg] else walkItems items
  | .list items => walkItems items

def walkItems : List Chunk → List Message
  | [] => []
  | item :: items => walkMessages item ++ walkItems items

end

structure Totals where
  tokens : ℤ × ℤ := 0
  costUsd : ℚ := 0
  model : String := ""
  sawUnmeteredAiMessage : Bool := false

def foldMessageUsage (totals : Totals) (msg : Message) : Totals :=
  let (tokens, model, cost) := usageFromMessage msg
  { tokens := totals.tokens + tokens
    costUsd := totals.costUsd + cost
    model := if totals.model = "" then model else totals.model
    sawUnmeteredAiMessage := totals.sawUnmeteredAiMessage || (tokens = 0 && cost = 0) }

/-- The message has an id and it is one of `skipIds`. -/
def Chunk.skipped (skipIds : List String) (msg : Chunk) : Bool := msg.id ≠ "" && msg.id ∈ skipIds

/-- `accumulate_usage` on the messages of a snapshot, from index `i` on. -/
def accumulateUsage (skipIds : List String) (skipPrefix : ℕ) : ℕ → List Chunk → Totals → Totals
  | _, [], totals => totals
  | i, msg :: messages, totals =>
    accumulateUsage skipIds skipPrefix (i + 1) messages
      (if i < skipPrefix || msg.skipped skipIds then totals
        else (walkMessages msg).foldl foldMessageUsage totals)

structure UsagePayload where
  tokens : ℤ × ℤ
  totalTokens : ℤ
  model : String := ""
  costUsd : ℚ := 0
  unmetered : Bool := false

def usagePayload (totals : Totals) : Option UsagePayload :=
  if totals.tokens = 0 then
    if totals.sawUnmeteredAiMessage then some { tokens := 0, totalTokens := 0, unmetered := true }
    else none
  else some { tokens := totals.tokens, totalTokens := totals.tokens.1 + totals.tokens.2
              model := totals.model, costUsd := totals.costUsd }

/-- The ids that are skipped after a run on a thread with the messages `prior`. -/
def skipIds (prior : List Chunk) : List String := (prior.map Chunk.id).filter (· ≠ "")

/-- The prompt and completion tokens that `execute_run` reports from the final values. -/
def reported (prior final : List Chunk) : ℤ × ℤ :=
  (usagePayload (accumulateUsage (skipIds prior) prior.length 0 final {})).elim 0
    UsagePayload.tokens

/-- The usage of the AI messages whose ids were not there before. -/
def newUsage (prior messages : List Chunk) : ℤ × ℤ :=
  (((messages.filter fun msg => !msg.skipped (skipIds prior)).flatMap walkMessages).map
    fun msg => (usageFromMessage msg).1).sum

theorem tokens_foldMessageUsage : ∀ (messages : List Message) (totals : Totals),
    (messages.foldl foldMessageUsage totals).tokens =
      totals.tokens + (messages.map fun msg => (usageFromMessage msg).1).sum
  | [], _ => by simp
  | msg :: messages, totals => by
    rw [List.foldl_cons, tokens_foldMessageUsage messages]
    simp [foldMessageUsage, add_assoc]

theorem tokens_accumulateUsage (prior : List Chunk) (n : ℕ) :
    ∀ (messages : List Chunk) (i : ℕ) (totals : Totals),
      (accumulateUsage (skipIds prior) n i messages totals).tokens =
        totals.tokens + newUsage prior (messages.drop (n - i))
  | [], _, _ => by simp [accumulateUsage, newUsage]
  | msg :: messages, i, totals => by
    rw [accumulateUsage, tokens_accumulateUsage]
    by_cases hi : i < n
    · obtain ⟨k, hk⟩ : ∃ k, n - i = k + 1 := ⟨n - i - 1, by omega⟩
      have hk' : n - (i + 1) = k := by omega
      simp [hi, hk, hk']
    · have hzero : n - i = 0 := by omega
      have hzero' : n - (i + 1) = 0 := by omega
      cases hskip : msg.skipped (skipIds prior) with
      | true => simp [hi, hzero, hzero', newUsage, hskip]
      | false => simp [hi, hzero, hzero', newUsage, hskip, tokens_foldMessageUsage, add_assoc]

theorem reported_eq (prior final : List Chunk) :
    reported prior final = newUsage prior (final.drop prior.length) := by
  have htokens := tokens_accumulateUsage prior prior.length final 0 {}
  rw [Nat.sub_zero, zero_add] at htokens
  rw [← htokens, reported, usagePayload]
  split_ifs with hzero hsaw
  · exact hzero.symm
  · exact hzero.symm
  · rfl

/-- The usage that is reported is that of the new AI messages exactly if those among the places of
the earlier messages have none. -/
theorem usage_exact_iff (prior final : List Chunk) : reported prior final = newUsage prior final ↔
      newUsage prior (final.take prior.length) = 0 := by
  have hsplit : newUsage prior final =
      newUsage prior (final.take prior.length) + newUsage prior (final.drop prior.length) := by
    rw [newUsage, newUsage, newUsage, ← List.sum_append, ← List.map_append, ← List.flatMap_append,
      ← List.filter_append, List.take_append_drop]
  rw [reported_eq, hsplit, right_eq_add]

/-- A message of the model with a hundred prompt tokens. -/
def aiMessage (id : String) : Chunk := .object
  { id := id
    type := "ai"
    hasUsageMetadata := true
    usageMetadata := some ⟨fun key => if key = "input_tokens" then 100 else 0, fun _ => 0, "gpt"⟩
    responseModel := ""
    tokenUsage := none }

/-- A run that trims the thread to its last message and appends an answer is not billed. -/
theorem trimmed_unbilled :
    reported [aiMessage "a", aiMessage "b"] [aiMessage "b", aiMessage "c"] = 0 ∧
      newUsage [aiMessage "a", aiMessage "b"] [aiMessage "b", aiMessage "c"] = (100, 0) := by
  decide +kernel

end Runkite.Usage
