import Mathlib
import Runkite.JsonText
import Runkite.Strings
import Runkite.Trace

/-!
# Stashed payloads

Large results of connector calls are kept in a store, under a key made of the run, its generation
and a reference, and the agent gets a stub with the reference. `Retrieve` reads back with a
reference that the agent sends.

`Apply` makes several calls to the store, so applications of any runs interleave at these calls.
A call may fail, or take effect without its answer arriving, and the store may drop an entry at any
time. The codec of bodies and the hash are parameters. Each stored payload carries the run and the
generation whose `Apply` set it (`Stored.owner`), which the code does not store.

The key is joined with colons. The references of `Apply` have none, but the ids of runs and the
references of agents may, so that two different joins can give the same key.
-/

open Json (Members Value render)
open Strings (Free eq_of_append_sep_last trimSpace)

namespace Runkite

namespace PayloadStash

abbrev Bytes := List UInt8

/-! ## Keys -/

/-- Nothing to trim and no control rune. Empty selects a generated id. -/
def validRunID (id : String) : Bool :=
  trimSpace id = id && id.toList.all fun c => ¬ (c.toNat < 0x20 ∨ 0x7f ≤ c.toNat ∧ c.toNat < 0xa0)

def valueKeyPrefix : String := "rk:payload:v:"

def budgetKeyPrefix : String := "rk:payload:b:"

def valueKey (runId : String) (generation : ℤ) (ref : String) : String :=
  valueKeyPrefix ++ runId ++ ":" ++ toString generation ++ ":" ++ ref

def budgetKey (runId : String) (generation : ℤ) : String :=
  budgetKeyPrefix ++ runId ++ ":" ++ toString generation

def hexEncode (bytes : Bytes) : List Char :=
  bytes.flatMap fun b => [(b.toNat / 16).digitChar, (b.toNat % 16).digitChar]

/-! ## The store -/

/-- Whom a payload belongs to. -/
structure Owner where
  runId : String
  generation : ℤ
deriving DecidableEq

structure Stored where
  bytes : Bytes
  owner : Owner
deriving DecidableEq

structure PayloadStore where
  values : String → Option Stored
  ints : String → ℤ

def PayloadStore.empty : PayloadStore := ⟨fun _ => none, fun _ => 0⟩

/-- How a call to the store goes : `lost` takes effect but reports a failure. -/
inductive Reply where
  | ok
  | failed
  | lost
deriving DecidableEq

/-- The answers of `Get`. -/
inductive Got where
  | found (bytes : Bytes)
  | notFound
  | failed

namespace PayloadStore

def get (reply : Reply) (key : String) (s : PayloadStore) : Got :=
  if reply = .ok then
    match s.values key with
    | some stored => .found stored.bytes
    | none => .notFound
  else .failed

def set (reply : Reply) (key : String) (value : Stored) (s : PayloadStore) : PayloadStore :=
  if reply = .failed then s else { s with values := Function.update s.values key (some value) }

def incrBy (reply : Reply) (key : String) (n : ℤ) (s : PayloadStore) : PayloadStore :=
  if reply = .failed then s
  else { s with ints := Function.update s.ints key (s.ints key + n) }

def decrBy (reply : Reply) (key : String) (n : ℤ) (s : PayloadStore) : PayloadStore :=
  s.incrBy reply key (-n)

/-- The store drops an entry : its lifetime is over. -/
def evict (key : String) (s : PayloadStore) : PayloadStore :=
  { values := Function.update s.values key none, ints := Function.update s.ints key 0 }

end PayloadStore

/-! ## Apply -/

structure Settings where
  enabled : Bool
  /-- A store is configured. -/
  store : Bool
  maxBytes : ℤ
  previewBytes : ℤ
  maxStoreBytes : ℤ

/-- `Validate`, for the sizes. -/
def Settings.valid (s : Settings) : Bool :=
  1024 ≤ s.maxBytes && 0 ≤ s.previewBytes && s.previewBytes < s.maxBytes &&
    s.maxBytes ≤ s.maxStoreBytes

def Settings.live (s : Settings) : Bool := s.enabled && s.store

/-- What is done with bodies besides storing them. -/
structure Codec where
  /-- The result of a JSON-RPC response that has one and no error. -/
  innerResult : Bytes → Option Bytes
  sha256 : Bytes → Bytes
  /-- The response with a preview of its result of the given length and the reference. -/
  buildStub : Bytes → ℤ → String → Option Bytes

def Codec.contentAddressRef (codec : Codec) (inner : Bytes) : String :=
  String.ofList ((hexEncode (codec.sha256 inner)).take 16)

structure Call where
  runId : String
  generation : ℤ
  respBody : Bytes

def Call.owner (c : Call) : Owner := ⟨c.runId, c.generation⟩

/-- Where an application stands. `second` says that the reference has the suffix which tells
results with the same first digits of the hash apart. -/
inductive Phase where
  /-- Before the `Get` of `pickValueKey` on one of its two keys. -/
  | pick (second : Bool)
  /-- Before the `Get` that looks whether the result is stored already. -/
  | existing (second : Bool)
  /-- Before the `IncrBy` of the budget. -/
  | charge (second : Bool)
  /-- Before the `Expire` of the budget, which had come to `total`. -/
  | expire (second : Bool) (total : ℤ)
  /-- Before the `Set`. -/
  | set (second : Bool)
  /-- Before the `DecrBy` that gives the budget back. -/
  | refund
  | done (reply : Bytes)

structure Flight where
  call : Call
  inner : Bytes
  phase : Phase

namespace Flight

def ref (codec : Codec) (f : Flight) (second : Bool) : String :=
  if second then codec.contentAddressRef f.inner ++ "-2" else codec.contentAddressRef f.inner

def key (codec : Codec) (f : Flight) (second : Bool) : String :=
  valueKey f.call.runId f.call.generation (f.ref codec second)

/-- The stub, if it is worth it. -/
def stub (codec : Codec) (settings : Settings) (f : Flight) (second : Bool) : Option Bytes :=
  (codec.buildStub f.call.respBody settings.previewBytes (f.ref codec second)).filter
    fun stub => stub.length < f.call.respBody.length

/-- The application forwards the response as it is. -/
def giveUp (f : Flight) : Flight := { f with phase := .done f.call.respBody }

/-- The application has chosen its key. -/
def picked (codec : Codec) (settings : Settings) (f : Flight) (second : Bool) : Flight :=
  match f.stub codec settings second with
  | none => f.giveUp
  | some _ => { f with phase := .existing second }

/-- The application answers with the stub. -/
def answer (codec : Codec) (settings : Settings) (f : Flight) (second : Bool) : Flight :=
  match f.stub codec settings second with
  | none => f.giveUp
  | some stub => { f with phase := .done stub }

/-- The next call of an application to the store. -/
def advance (codec : Codec) (settings : Settings) (reply : Reply) (f : Flight)
    (s : PayloadStore) : Flight × PayloadStore :=
  match f.phase with
  | .pick second =>
    match s.get reply (f.key codec second) with
    | .notFound => (f.picked codec settings second, s)
    | .failed => (f.giveUp, s)
    | .found bytes =>
      if bytes = f.inner then (f.picked codec settings second, s)
      else if second then (f.giveUp, s)
      else ({ f with phase := .pick true }, s)
  | .existing second =>
    match s.get reply (f.key codec second) with
    | .failed => (f.giveUp, s)
    | .notFound => ({ f with phase := .charge second }, s)
    | .found bytes =>
      if bytes = f.inner then (f.answer codec settings second, s)
      else ({ f with phase := .charge second }, s)
  | .charge second =>
    let s := s.incrBy reply (budgetKey f.call.runId f.call.generation) f.inner.length
    if reply = .ok then
      ({ f with phase := .expire second (s.ints (budgetKey f.call.runId f.call.generation)) }, s)
    else (f.giveUp, s)
  | .expire second total =>
    if settings.maxStoreBytes < total then ({ f with phase := .refund }, s)
    else ({ f with phase := .set second }, s)
  | .set second =>
    let s := s.set reply (f.key codec second) ⟨f.inner, f.call.owner⟩
    if reply = .ok then (f.answer codec settings second, s) else ({ f with phase := .refund }, s)
  | .refund =>
    (f.giveUp, s.decrBy reply (budgetKey f.call.runId f.call.generation) f.inner.length)
  | .done _ => (f, s)

end Flight

/-- The start of an application : what it decides before its first call to the store. -/
def Call.start (codec : Codec) (settings : Settings) (c : Call) : Flight :=
  if ¬ settings.live ∨ c.runId = "" ∨ (c.respBody.length : ℤ) ≤ settings.maxBytes then
    ⟨c, [], .done c.respBody⟩
  else match codec.innerResult c.respBody with
    | none => ⟨c, [], .done c.respBody⟩
    | some inner => ⟨c, inner, .pick false⟩

/-! ## Histories -/

structure Plane where
  store : PayloadStore
  flights : List Flight

def Plane.init : Plane := ⟨.empty, []⟩

inductive Event where
  /-- A run's response arrives. -/
  | apply (call : Call)
  /-- An application makes its next call to the store. -/
  | proceed (i : ℕ) (reply : Reply)
  /-- The store drops an entry. -/
  | evict (key : String)

def Plane.step (codec : Codec) (settings : Settings) (e : Event) (w : Plane) : Plane :=
  match e with
  | .apply call => { w with flights := w.flights ++ [call.start codec settings] }
  | .proceed i reply =>
    match w.flights[i]? with
    | none => w
    | some f =>
      let (f, s) := f.advance codec settings reply w.store
      { store := s, flights := w.flights.set i f }
  | .evict key => { w with store := w.store.evict key }

inductive RetrieveError where
  | disabled
  | missingRef
  | notFound

def retrieve (settings : Settings) (reply : Reply) (runId : String) (generation : ℤ) (ref : String)
    (s : PayloadStore) : Except RetrieveError Bytes :=
  if ¬ settings.live then .error .disabled
  else if ref = "" then .error .missingRef
  else if runId = "" then .error .notFound
  else match s.get reply (valueKey runId generation ref) with
    | .found bytes => .ok bytes
    | _ => .error .notFound

/-! ## Keys of applications -/

theorem isDigit_of_mem_repr {n : ℕ} {c : Char} (h : c ∈ n.repr.toList) : c.isDigit = true := by
  rw [Nat.toList_repr] at h
  exact Nat.isDigit_of_mem_toDigits (by decide) (by decide) h

theorem free_repr (n : ℕ) : Free ':' n.repr := fun hmem =>
  absurd (isDigit_of_mem_repr hmem) (by decide)

theorem free_toString (g : ℤ) : Free ':' (toString g) := by
  rw [Int.toString_eq_repr, Int.repr_eq_if]
  split_ifs
  · exact free_repr _
  · rw [Free, String.toList_append, List.mem_append, not_or]
    exact ⟨by decide, free_repr _⟩

theorem free_contentAddressRef (codec : Codec) (inner : Bytes) :
    Free ':' (codec.contentAddressRef inner) := by
  intro hmem
  rw [Codec.contentAddressRef, String.toList_ofList] at hmem
  obtain ⟨b, -, hb⟩ := List.mem_flatMap.1 (List.mem_of_mem_take hmem)
  rcases List.mem_cons.1 hb with h | h
  · exact Nat.digitChar_ne ':' (by decide) h.symm
  · exact Nat.digitChar_ne ':' (by decide) (List.mem_singleton.1 h).symm

theorem Flight.free_ref (codec : Codec) (f : Flight) (second : Bool) :
    Free ':' (f.ref codec second) := by
  cases second with
  | false => exact free_contentAddressRef codec f.inner
  | true =>
    rw [Flight.ref, if_pos rfl, Free, String.toList_append, List.mem_append, not_or]
    exact ⟨free_contentAddressRef codec f.inner, by decide⟩

theorem regroup (a b s t : String) (h : a ++ ":" ++ s = b ++ ":" ++ t) :
    a ++ (String.singleton ':' ++ s) = b ++ (String.singleton ':' ++ t) := by
  rw [← String.append_assoc, ← String.append_assoc]
  exact h

/-- Keys with references that have no colon tell their runs and generations apart. -/
theorem valueKey_inj {runId runId' ref ref' : String} {generation generation' : ℤ}
    (href : Free ':' ref) (href' : Free ':' ref')
    (h : valueKey runId generation ref = valueKey runId' generation' ref') :
    runId = runId' ∧ generation = generation' ∧ ref = ref' := by
  obtain ⟨hhead, hrefs⟩ := eq_of_append_sep_last href href' (regroup _ _ _ _ h)
  obtain ⟨hruns, hgens⟩ :=
    eq_of_append_sep_last (free_toString _) (free_toString _) (regroup _ _ _ _ hhead)
  rw [Int.toString_eq_repr, Int.toString_eq_repr] at hgens
  exact ⟨by simpa using hruns, Int.repr_injective hgens, hrefs⟩

/-! ## The owner of what is stored -/

/-- Every payload lies under a key of its owner, with a reference that has no colon. -/
def PayloadStore.Kept (s : PayloadStore) : Prop :=
  ∀ key stored, s.values key = some stored →
    ∃ ref, Free ':' ref ∧ key = valueKey stored.owner.runId stored.owner.generation ref

namespace PayloadStore.Kept

variable {s : PayloadStore}

theorem empty : PayloadStore.empty.Kept := fun _ _ h => nomatch h

theorem set (h : s.Kept) {ref : String} (href : Free ':' ref) (reply : Reply) (bytes : Bytes)
    (owner : Owner) :
    (s.set reply (valueKey owner.runId owner.generation ref) ⟨bytes, owner⟩).Kept := by
  unfold PayloadStore.set
  split_ifs
  · exact h
  · intro key stored hkey
    by_cases heq : key = valueKey owner.runId owner.generation ref
    · subst heq
      simp only [Function.update_self] at hkey
      cases hkey
      exact ⟨ref, href, rfl⟩
    · simp only [Function.update_of_ne heq] at hkey
      exact h key stored hkey

theorem incrBy (h : s.Kept) (reply : Reply) (key : String) (n : ℤ) :
    (s.incrBy reply key n).Kept := by
  unfold PayloadStore.incrBy
  split_ifs
  · exact h
  · exact h

theorem evict (h : s.Kept) (dropped : String) : (s.evict dropped).Kept := by
  intro key stored hkey
  by_cases heq : key = dropped
  · subst heq
    simp [PayloadStore.evict] at hkey
  · simp only [PayloadStore.evict, Function.update_of_ne heq] at hkey
    exact h key stored hkey

end PayloadStore.Kept

section

variable (codec : Codec) (settings : Settings)

/-- An application's next call stores at most its own result, under its own key. -/
theorem Flight.kept_advance (reply : Reply) (f : Flight)
    {s : PayloadStore} (h : s.Kept) : (f.advance codec settings reply s).2.Kept := by
  unfold Flight.advance
  cases f.phase with
  | pick second | existing second =>
    dsimp only
    rcases s.get reply (f.key codec second) with bytes | _ | _
    · dsimp only
      split_ifs <;> exact h
    · exact h
    · exact h
  | charge =>
    dsimp only
    split_ifs
    · exact h.incrBy _ _ _
    · exact h.incrBy _ _ _
  | expire =>
    dsimp only
    split_ifs <;> exact h
  | set second =>
    dsimp only
    have hset := h.set (f.free_ref codec second) reply f.inner f.call.owner
    split_ifs
    · exact hset
    · exact hset
  | refund => exact h.incrBy _ _ _
  | done => exact h

theorem Plane.kept_step (e : Event) (w : Plane)
    (h : w.store.Kept) : (w.step codec settings e).store.Kept := by
  cases e with
  | apply => exact h
  | proceed i reply =>
    rcases hi : w.flights[i]? with _ | f
    · simpa [Plane.step, hi] using h
    · simpa [Plane.step, hi] using f.kept_advance codec settings reply h
  | evict key => exact h.evict key

end

/-! ## Isolation -/

/-- What a run retrieves was stored by an `Apply` of that run and generation. -/
def Isolated (settings : Settings) (reply : Reply) (runId : String) (generation : ℤ) (ref : String)
    (s : PayloadStore) : Prop :=
  ∀ bytes, retrieve settings reply runId generation ref s = .ok bytes →
    ∃ stored, s.values (valueKey runId generation ref) = some stored ∧ stored.bytes = bytes ∧
      stored.owner = ⟨runId, generation⟩

/-- What is retrieved is the payload under the key of the request. -/
theorem retrieve_eq_ok_iff {settings : Settings} {reply : Reply} {runId : String} {generation : ℤ}
    {ref : String} {s : PayloadStore} {bytes : Bytes} :
    retrieve settings reply runId generation ref s = .ok bytes ↔
      settings.live ∧ ref ≠ "" ∧ runId ≠ "" ∧ reply = .ok ∧
        ∃ stored, s.values (valueKey runId generation ref) = some stored ∧ stored.bytes = bytes := by
  unfold retrieve PayloadStore.get
  cases s.values (valueKey runId generation ref) with
  | none => split_ifs <;> simp_all
  | some => split_ifs <;> simp_all

/-- After every history, a request is isolated exactly if its reference has no colon, there is nothing
under its key, or it does not come to the store or gets no answer from it. -/
theorem isolated_iff (codec : Codec) (settings : Settings) (es : List Event) (reply : Reply)
    (runId : String) (generation : ℤ) (ref : String) : Isolated settings reply runId generation ref
        (Trace.run (Plane.step codec settings) es Plane.init).store ↔
      Free ':' ref ∨ (Trace.run (Plane.step codec settings) es Plane.init).store.values
        (valueKey runId generation ref) = none ∨ ¬ settings.live ∨ runId = "" ∨ reply ≠ .ok := by
  have hkept : (Trace.run (Plane.step codec settings) es Plane.init).store.Kept :=
    @Trace.invariant_of_step _ _ _ (fun w : Plane => w.store.Kept)
      (fun e w h => w.kept_step codec settings e h) es _ .empty
  generalize (Trace.run (Plane.step codec settings) es Plane.init).store = s at hkept ⊢
  simp only [Isolated, retrieve_eq_ok_iff]
  constructor
  · intro hiso
    by_contra hno
    push Not at hno
    obtain ⟨hcolon, hsome, hlive, hrun, hreply⟩ := hno
    obtain ⟨stored, hstored⟩ := Option.ne_none_iff_exists'.1 hsome
    have href : ref ≠ "" := by
      rintro rfl
      exact hcolon (by simp [Free])
    obtain ⟨_, hstored', -, howner⟩ := hiso _ ⟨hlive, href, hrun, hreply, stored, hstored, rfl⟩
    obtain ⟨ref', href', hkey⟩ := hkept _ _ hstored'
    rw [howner] at hkey
    -- The same run and generation, so the reference is the one of an `Apply`.
    obtain rfl : ref = ref' := by simpa [valueKey] using hkey
    exact hcolon href'
  · rintro hcases bytes ⟨hlive, -, hrun, hreply, stored, hstored, hbytes⟩
    obtain hfree : Free ':' ref := by simpa [hlive, hrun, hreply, hstored] using hcases
    obtain ⟨_, href', hkey⟩ := hkept _ _ hstored
    obtain ⟨hrun', hgen, -⟩ := valueKey_inj hfree href' hkey
    refine ⟨stored, hstored, hbytes, ?_⟩
    rw [hrun', hgen]

/-- A codec that takes each response for its own result. -/
def plainCodec : Codec where
  innerResult := some
  sha256 _ := [0xca, 0xfe, 0xba, 0xbe, 0, 1, 2, 3]
  buildStub _ _ _ := some []

def defaultSettings : Settings where
  enabled := true
  store := true
  maxBytes := 1024
  previewBytes := 32
  maxStoreBytes := 1048576

/-- The run `a:1` stores a result in its second generation, without failures. -/
def otherRun : List Event :=
  [.apply ⟨"a:1", 2, List.replicate 1025 7⟩, .proceed 0 .ok, .proceed 0 .ok, .proceed 0 .ok,
    .proceed 0 .ok, .proceed 0 .ok]

/-- The run `a` reads in its first generation what the run `a:1` has stored. -/
theorem retrieve_other_run :
    validRunID "a" = true ∧ validRunID "a:1" = true ∧ defaultSettings.valid = true ∧
      ∃ stored,
        (Trace.run (Plane.step plainCodec defaultSettings) otherRun Plane.init).store.values
            (valueKey "a" 1 "2:cafebabe00010203") = some stored ∧
          stored.owner = ⟨"a:1", 2⟩ ∧
          retrieve defaultSettings .ok "a" 1 "2:cafebabe00010203"
            (Trace.run (Plane.step plainCodec defaultSettings) otherRun Plane.init).store =
              .ok stored.bytes := by
  have hstored : (Trace.run (Plane.step plainCodec defaultSettings) otherRun
      Plane.init).store.values (valueKey "a" 1 "2:cafebabe00010203") =
        some ⟨List.replicate 1025 7, ⟨"a:1", 2⟩⟩ := by decide +kernel
  refine ⟨by decide +kernel, by decide +kernel, by decide, _, hstored, rfl, ?_⟩
  have hget : PayloadStore.get .ok (valueKey "a" 1 "2:cafebabe00010203")
      (Trace.run (Plane.step plainCodec defaultSettings) otherRun Plane.init).store =
        .found (List.replicate 1025 7) := by rw [PayloadStore.get, if_pos rfl, hstored]
  rw [retrieve, if_neg (by decide), if_neg (by decide), if_neg (by decide), hget]

/-! ## The outcome of a call -/

/-- `jsonRPCEnvelope`. A result or an error that is null counts as absent. -/
structure Envelope where
  jsonrpc : String
  id : Option Bytes
  result : Option Bytes
  error : Option Bytes

/-- `encoding/json` on responses, and what is computed from their results. -/
structure JsonRPC where
  unmarshal : Bytes → Option Envelope
  marshal : Envelope → Bytes
  /-- A result with one text, and without the flag. -/
  marshalResult : String → Bytes
  /-- The flag of a result, false if it has none. -/
  isError : Bytes → Bool
  previewText : Bytes → ℤ → String
  sha256 : Bytes → Bytes
  read_result : ∀ version id text, ((unmarshal (marshal ⟨version, id,
    some (marshalResult text), none⟩)).bind Envelope.result).elim false isError = false

def retrieveHint (ref : String) : String :=
  "\n\n[runkite: result truncated; call runkite_retrieve_payload with \x7b\"ref\":\"" ++ ref ++
    "\"\x7d for the original]"

namespace JsonRPC

variable (j : JsonRPC)

/-- `innerResult` and `buildStub`. -/
def codec : Codec where
  innerResult body := (j.unmarshal body).bind fun e => if e.error = none then e.result else none
  sha256 := j.sha256
  buildStub body n ref := (j.unmarshal body).bind fun e => e.result.map fun inner =>
    j.marshal ⟨if e.jsonrpc = "" then "2.0" else e.jsonrpc, e.id,
      some (j.marshalResult (j.previewText inner n ++ retrieveHint ref)), none⟩

/-- `result.isError` of a response. -/
def failed (body : Bytes) : Bool := ((j.unmarshal body).bind Envelope.result).elim false j.isError

end JsonRPC

/-- A response that is large enough, of a run, and has a result. -/
def Call.Eligible (codec : Codec) (settings : Settings) (c : Call) : Prop :=
  settings.live ∧ c.runId ≠ "" ∧ settings.maxBytes < c.respBody.length ∧
    (codec.innerResult c.respBody).isSome

/-- The next call of an application to the store leads on to the stub : it is answered, one of the two
keys is free or has the result, the stub is worth it, and the budget is not exceeded. -/
def Flight.served (codec : Codec) (settings : Settings) (reply : Reply) (f : Flight)
    (s : PayloadStore) : Bool :=
  match f.phase with
  | .pick second =>
    match s.get reply (f.key codec second) with
    | .failed => false
    | .notFound => (f.stub codec settings second).isSome
    | .found bytes => if bytes = f.inner then (f.stub codec settings second).isSome else !second
  | .existing second =>
    match s.get reply (f.key codec second) with
    | .failed => false
    | _ => true
  | .charge _ | .set _ => reply = .ok
  | .expire _ total => total ≤ settings.maxStoreBytes
  | .refund | .done _ => true

/-- The event is no call of the application `i`, or one that leads on to the stub. -/
def Plane.serves (codec : Codec) (settings : Settings) (i : ℕ) (e : Event) (w : Plane) : Bool :=
  match e with
  | .proceed j reply =>
    j ≠ i || w.flights[i]?.all fun f => f.served codec settings reply w.store
  | _ => true

/-- Where an application stands, if `fine` says that its calls led on to the stub so far. -/
def Flight.Follows (codec : Codec) (settings : Settings) (fine : Prop) (f : Flight) : Prop :=
  match f.phase with
  | .done reply => reply = f.call.respBody ∧ ¬ (f.call.Eligible codec settings ∧ fine) ∨
      (f.call.Eligible codec settings ∧ fine) ∧
        ∃ n ref, codec.buildStub f.call.respBody n ref = some reply
  | .refund => ¬ fine
  | .pick _ => f.call.Eligible codec settings ∧ fine
  | .existing second | .charge second | .expire second _ | .set second =>
    (f.call.Eligible codec settings ∧ fine) ∧ (f.stub codec settings second).isSome

section

variable {codec : Codec} {settings : Settings} {f : Flight} {fine : Prop} {second : Bool}

theorem Flight.follows_giveUp (h : ¬ fine) : f.giveUp.Follows codec settings fine :=
  .inl ⟨rfl, fun hfine => h hfine.2⟩

theorem Flight.follows_picked (h : f.call.Eligible codec settings ∧ fine) :
    (f.picked codec settings second).Follows codec settings
      (fine ∧ (f.stub codec settings second).isSome) := by
  unfold picked
  cases hstub : f.stub codec settings second with
  | none => exact follows_giveUp (by simp)
  | some stub => exact ⟨⟨h.1, h.2, rfl⟩, Option.isSome_iff_exists.2 ⟨stub, hstub⟩⟩

theorem Flight.follows_answer (h : f.call.Eligible codec settings ∧ fine)
    (hstub : (f.stub codec settings second).isSome) :
    (f.answer codec settings second).Follows codec settings fine := by
  obtain ⟨stub, hstub⟩ := Option.isSome_iff_exists.1 hstub
  simp only [answer, hstub]
  exact .inr ⟨h, _, _, (Option.filter_eq_some_iff.1 hstub).1⟩

theorem Flight.Follows.advance (h : f.Follows codec settings fine) (reply : Reply) (s : PayloadStore) :
    (f.advance codec settings reply s).1.Follows codec settings
      (fine ∧ f.served codec settings reply s) := by
  unfold Flight.advance served
  unfold Follows at h
  cases hphase : f.phase with
  | pick second =>
    rw [hphase] at h
    dsimp only
    rcases s.get reply (f.key codec second) with bytes | _ | _
    · dsimp only
      split_ifs with hsame hsecond
      · exact follows_picked h
      · exact follows_giveUp (by simp [hsecond])
      · exact ⟨h.1, h.2, by simpa using hsecond⟩
    · exact follows_picked h
    · exact follows_giveUp (by simp)
  | existing second =>
    rw [hphase] at h
    dsimp only
    rcases s.get reply (f.key codec second) with bytes | _ | _
    · dsimp only
      split_ifs
      · exact follows_answer ⟨h.1.1, h.1.2, rfl⟩ h.2
      · exact ⟨⟨h.1.1, h.1.2, rfl⟩, h.2⟩
    · exact ⟨⟨h.1.1, h.1.2, rfl⟩, h.2⟩
    · exact follows_giveUp (by simp)
  | charge second =>
    rw [hphase] at h
    dsimp only
    split_ifs with hreply
    · exact ⟨⟨h.1.1, h.1.2, decide_eq_true hreply⟩, h.2⟩
    · exact follows_giveUp (by simp [hreply])
  | set second =>
    rw [hphase] at h
    dsimp only
    split_ifs with hreply
    · exact follows_answer ⟨h.1.1, h.1.2, decide_eq_true hreply⟩ h.2
    · exact fun hfine => hreply (of_decide_eq_true hfine.2)
  | expire second total =>
    rw [hphase] at h
    dsimp only
    split_ifs with hover
    · exact fun hfine => hover.not_ge (of_decide_eq_true hfine.2)
    · exact ⟨⟨h.1.1, h.1.2, decide_eq_true (not_lt.1 hover)⟩, h.2⟩
  | refund =>
    rw [hphase] at h
    exact follows_giveUp fun hfine => h hfine.1
  | done reply =>
    rw [hphase] at h
    simpa [Follows, hphase] using h

theorem Call.follows_start (c : Call) (hfine : fine) :
    (c.start codec settings).Follows codec settings fine := by
  unfold start
  split_ifs with hsmall
  · refine .inl ⟨rfl, fun h => ?_⟩
    obtain ⟨⟨hlive, hrun, hsize, -⟩, -⟩ := h
    rcases hsmall with hnot | hempty | hle
    · exact hnot hlive
    · exact hrun hempty
    · exact hsize.not_ge hle
  · push Not at hsmall
    cases hinner : codec.innerResult c.respBody with
    | none => exact .inl ⟨rfl, fun h => by simp [Eligible, hinner] at h⟩
    | some => exact ⟨⟨hsmall.1, hsmall.2.1, hsmall.2.2, by simp [hinner]⟩, hfine⟩

/-- After every history, each application stands where its calls have led it. -/
theorem Plane.follows_run (es : List Event) (i : ℕ) :
    let w := Trace.run (Plane.step codec settings) es .init
    let fine := Trace.Every (Plane.step codec settings) (fun e w => w.serves codec settings i e) es .init
    (w.flights.length ≤ i → fine) ∧ ∀ f, w.flights[i]? = some f → f.Follows codec settings fine := by
  induction es using List.reverseRecOn with
  | nil => exact ⟨fun _ => trivial, fun f hf => by simp [Trace.run, init] at hf⟩
  | append_singleton es e ih =>
    simp only [Trace.run_append, Trace.every_append, Trace.run, Trace.Every, and_true] at ih ⊢
    generalize Trace.run (Plane.step codec settings) es .init = w at ih ⊢
    obtain ⟨hearly, hflights⟩ := ih
    cases e with
    | apply call =>
      refine ⟨fun hi => ⟨hearly ?_, rfl⟩, fun f hf => ?_⟩
      · simp only [step, List.length_append] at hi
        omega
      · simp only [step, List.getElem?_append] at hf
        split_ifs at hf with hi
        · simpa [serves] using hflights f hf
        · rw [List.getElem?_singleton] at hf
          split_ifs at hf
          cases hf
          exact call.follows_start ⟨hearly (not_lt.1 hi), rfl⟩
    | proceed j reply =>
      cases hj : w.flights[j]? with
      | none =>
        have hserves : w.serves codec settings i (.proceed j reply) := by
          by_cases hij : j = i
          · subst hij
            simp [serves, hj]
          · simp [serves, hij]
        simpa [step, hj, hserves] using ⟨hearly, hflights⟩
      | some g =>
        simp only [step, hj, List.length_set, List.getElem?_set]
        refine ⟨fun hi => ⟨hearly hi, ?_⟩, fun f hf => ?_⟩
        · simp [serves, List.getElem?_eq_none hi]
        · by_cases hij : j = i
          · subst hij
            obtain ⟨hlt, -⟩ := List.getElem?_eq_some_iff.1 hj
            simp only [if_true, hlt, Option.some.injEq] at hf
            subst hf
            simpa [serves, hj] using (hflights g hj).advance reply w.store
          · simp only [hij, if_false] at hf
            simpa [serves, hij] using hflights f hf
    | evict =>
      exact ⟨fun hi => ⟨hearly hi, rfl⟩, fun f hf => by simpa [serves] using hflights f hf⟩

end

/-- An application keeps the outcome of a call exactly if the call was a success, its response is not
to be stored, or some call to the store on the way to the stub goes wrong. -/
theorem outcome_kept_iff (j : JsonRPC) (settings : Settings) (es : List Event)
    (i : Fin (Trace.run (Plane.step j.codec settings) es .init).flights.length) :
    let f := (Trace.run (Plane.step j.codec settings) es .init).flights.get i
    (∀ reply, f.phase = .done reply → j.failed reply = j.failed f.call.respBody) ↔
      ∀ reply, f.phase = .done reply → ¬ j.failed f.call.respBody ∨
        ¬ (f.call.Eligible j.codec settings ∧ Trace.Every (Plane.step j.codec settings)
          (fun e w => w.serves j.codec settings i e = true) es .init) := by
  intro f
  have hfollows := (Plane.follows_run es i).2 f (List.getElem?_eq_getElem i.2)
  refine forall_congr' fun reply => imp_congr_right fun hdone => ?_
  rw [Flight.Follows, hdone] at hfollows
  obtain ⟨rfl, hnot⟩ | ⟨hserved, n, ref, hstub⟩ := hfollows
  · simp only [hnot, not_false_iff, or_true]
  · have hsuccess : j.failed reply = false := by
      obtain ⟨e, -, h⟩ := Option.bind_eq_some_iff.1 hstub
      obtain ⟨inner, -, rfl⟩ := Option.map_eq_some_iff.1 h
      exact j.read_result ..
    rw [hsuccess, eq_comm, Bool.not_eq_true]
    exact ⟨.inl, fun h => h.resolve_right (not_not.2 hserved)⟩

/-! ### Responses in JSON -/

/-- A document without blanks, in UTF-8. -/
def documentBytes (v : Value ℕ) : Bytes :=
  (render (fun n => n.repr.toList) v).flatMap String.utf8EncodeChar

theorem numberTexts_repr : Json.NumberTexts fun n : ℕ => n.repr.toList where
  first n := by
    obtain ⟨c, s, h⟩ := List.exists_cons_of_ne_nil (Nat.toDigits_ne_nil (n := n) (b := 10))
    rw [← Nat.toList_repr] at h
    exact ⟨c, s, h, .inl (isDigit_of_mem_repr (h ▸ List.mem_cons_self))⟩
  numeric n c hc := .inl (isDigit_of_mem_repr hc)
  injective a b h := Nat.repr_injective (String.toList_injective h)

theorem documentBytes_injective : Function.Injective documentBytes := by
  intro v w h
  refine Json.render_injective numberTexts_repr (String.ofList_injective (String.toByteArray_inj.1 ?_))
  rw [String.toByteArray_ofList, String.toByteArray_ofList]
  exact congrArg List.toByteArray h

/-- The document with this text. -/
noncomputable def readDocument : Bytes → Option (Value ℕ) := Function.partialInv documentBytes

@[simp] theorem readDocument_documentBytes (v : Value ℕ) : readDocument (documentBytes v) = some v :=
  Function.partialInv_left documentBytes_injective v

/-- A member of an object, or null. -/
def memberOf (key : String) : Value ℕ → Value ℕ
  | .object ms => (ms.lookup key).getD .null
  | _ => .null

/-- The text of a member, unless it is null. -/
def rawMember (key : String) (v : Value ℕ) : Option Bytes :=
  match memberOf key v with
  | .null => none
  | member => some (documentBytes member)

def stringOf : Value ℕ → String
  | .string s => s
  | _ => ""

/-- `truncateUTF8`, rune by rune. -/
def truncateUTF8 : ℕ → List Char → List Char
  | _, [] => []
  | n, c :: cs => if c.utf8Size ≤ n then c :: truncateUTF8 (n - c.utf8Size) cs else []

/-- The text of the first item of the content. -/
def contentText (v : Value ℕ) : String :=
  match memberOf "content" v with
  | .array (item :: _) => stringOf (memberOf "text" item)
  | _ => ""

def textResult (text : String) (isError : Bool) : Value ℕ :=
  .object [("content", .array [.object [("type", .string "text"), ("text", .string text)]]),
    ("isError", .bool isError)]

/-- `encoding/json` on responses without blanks, whose numbers are natural. -/
noncomputable def textRPC : JsonRPC where
  unmarshal body := (readDocument body).map fun v =>
    ⟨stringOf (memberOf "jsonrpc" v), rawMember "id" v, rawMember "result" v, rawMember "error" v⟩
  marshal e := documentBytes (.object (("jsonrpc", .string e.jsonrpc) ::
    [("id", e.id), ("result", e.result), ("error", e.error)].filterMap fun p =>
      (p.2.bind readDocument).map fun v => (p.1, v)))
  marshalResult text := documentBytes (textResult text false)
  isError raw := match (readDocument raw).map (memberOf "isError") with
    | some (.bool b) => b
    | _ => false
  previewText raw n := String.ofList (truncateUTF8 n.toNat ((readDocument raw).elim [] fun v =>
    if contentText v = "" then render (fun n => n.repr.toList) v else (contentText v).toList))
  sha256 _ := [0xca, 0xfe, 0xba, 0xbe, 0, 1, 2, 3]
  read_result version id text := by
    simp only [Option.bind_map, readDocument_documentBytes, List.filterMap_cons, List.filterMap_nil]
    cases id.bind readDocument <;> simp [rawMember, memberOf, textResult, List.lookup_cons]

/-- The response to the call 1. -/
def responseTo (result : Value ℕ) : Bytes :=
  documentBytes (.object [("jsonrpc", .string "2.0"), ("id", .number 1), ("result", result)])

section

variable (text : String) (flag : Bool)

theorem unmarshal_responseTo : textRPC.unmarshal (responseTo (textResult text flag)) =
    some ⟨"2.0", some (documentBytes (.number 1)), some (documentBytes (textResult text flag)),
      none⟩ := by
  simp [textRPC, responseTo, rawMember, memberOf, stringOf, textResult, List.lookup_cons]

theorem failed_responseTo : textRPC.failed (responseTo (textResult text flag)) = flag := by
  rw [JsonRPC.failed, unmarshal_responseTo]
  simp [textRPC, memberOf, textResult, List.lookup_cons]

theorem previewText_textResult (h : text ≠ "") (n : ℤ) :
    textRPC.previewText (documentBytes (textResult text flag)) n =
      String.ofList (truncateUTF8 n.toNat text.toList) := by
  simp [textRPC, contentText, memberOf, stringOf, textResult, List.lookup_cons, h]

theorem innerResult_responseTo : textRPC.codec.innerResult (responseTo (textResult text flag)) =
    some (documentBytes (textResult text flag)) := by
  simp [JsonRPC.codec, unmarshal_responseTo]

theorem buildStub_responseTo (n : ℤ) (ref : String) :
    textRPC.codec.buildStub (responseTo (textResult text flag)) n ref =
      some (responseTo (textResult (textRPC.previewText (documentBytes (textResult text flag)) n ++
        retrieveHint ref) false)) := by
  simp [JsonRPC.codec, unmarshal_responseTo]
  simp [textRPC, responseTo]

end

theorem quote_replicate (n : ℕ) : Json.quote (String.ofList (List.replicate n 'a')) =
    '"' :: (List.replicate n 'a' ++ ['"']) := by
  have hletters : (List.replicate n 'a').flatMap Json.escapeRune = List.replicate n 'a' := by
    induction n with
    | zero => rfl
    | succ n ih => rw [List.replicate_succ, List.flatMap_cons, ih]; rfl
  rw [Json.quote, String.toList_ofList, hletters]

theorem phase_of_ok (codec : Codec) (c : Call) {inner stub : Bytes} (hrun : c.runId ≠ "")
    (hlarge : 1024 < c.respBody.length) (hinner : codec.innerResult c.respBody = some inner)
    (hstub : codec.buildStub c.respBody 32 (codec.contentAddressRef inner) = some stub)
    (hshort : stub.length < c.respBody.length) (hbudget : inner.length ≤ 1048576) :
    (Trace.run (Plane.step codec defaultSettings)
      (.apply c :: List.replicate 5 (.proceed 0 .ok)) .init).flights.map Flight.phase = [.done stub] := by
  have hstart : c.start codec defaultSettings = ⟨c, inner, .pick false⟩ := by
    rw [Call.start, if_neg, hinner]
    simpa [hrun, Settings.live, defaultSettings] using hlarge
  have hstub : ∀ phase, Flight.stub codec defaultSettings ⟨c, inner, phase⟩ false = some stub := fun _ =>
    Option.filter_eq_some_iff.2 ⟨hstub, decide_eq_true hshort⟩
  have hbudget : ¬ defaultSettings.maxStoreBytes < inner.length := not_lt.2 (Int.ofNat_le.2 hbudget)
  simp [Trace.run, Plane.step, Plane.init, hstart, List.replicate, Flight.advance, PayloadStore.get,
    PayloadStore.empty, Flight.picked, hstub, PayloadStore.incrBy, PayloadStore.set, Flight.answer,
    hbudget]

/-- The failure of a call with a text of 2000 letters is answered as a success. -/
theorem failure_presented :
    let failure := responseTo (textResult (String.ofList (List.replicate 2000 'a')) true)
    let answer := responseTo (textResult (String.ofList (List.replicate 32 'a') ++
      retrieveHint "cafebabe00010203") false)
    (Trace.run (Plane.step textRPC.codec defaultSettings)
      (.apply ⟨"a", 2, failure⟩ :: List.replicate 5 (.proceed 0 .ok)) .init).flights.map Flight.phase =
        [.done answer] ∧ textRPC.failed failure = true ∧ textRPC.failed answer = false := by
  refine ⟨phase_of_ok textRPC.codec _ (by decide) ?_ (innerResult_responseTo _ _) ?_ ?_ ?_,
    failed_responseTo _ _, failed_responseTo _ _⟩
  · simp only [responseTo, textResult, documentBytes, render, Json.renderMembers, Json.renderItems,
      quote_replicate]
    decide +kernel
  · have hpreview : truncateUTF8 32 (List.replicate 2000 'a') = List.replicate 32 'a' := by rfl
    have hne : String.ofList (List.replicate 2000 'a') ≠ "" := fun h =>
      List.cons_ne_nil 'a' _ (String.ofList_injective h)
    rw [buildStub_responseTo, previewText_textResult _ _ hne, String.toList_ofList]
    exact congrArg (fun letters => some (responseTo (textResult (String.ofList letters ++
      retrieveHint "cafebabe00010203") false))) hpreview
  · simp only [responseTo, textResult, documentBytes, render, Json.renderMembers, Json.renderItems,
      quote_replicate]
    decide +kernel
  · simp only [textResult, documentBytes, render, Json.renderMembers, Json.renderItems,
      quote_replicate]
    decide +kernel

end PayloadStash

end Runkite
