import Mathlib
import Runkite.OpaqueCheckpoints

/-!
# The checkpoint saver of the runners

`ProxyCheckpointSaver` keeps the checkpoints of LangGraph as opaque checkpoints of the control plane.
A blob holds a checkpoint with its metadata and parent, and the pending writes for it. `aput` and
`aput_writes` read the blob, change it and put it back on the condition that it has not changed, up
to eight times; either may be the first to create it, and then `aput_writes` creates a shell whose
checkpoint is empty. Any number of calls, from any number of processes, make their requests in any
order; a request may fail or be refused, an answer may be lost, and a process that crashes makes no
more requests.

`SaverEnv.Inv` : the stored blob of a key holds the writes of all the calls whose put took effect,
and its checkpoint is that of such an `aput` if there is one.
-/

namespace Runkite

open OpaqueTable

/-! ## Blobs -/

/-- `dumps_typed` : the name of a type and the bytes of a value. -/
abbrev Typed := String × List UInt8

structure Blob where
  checkpoint : Typed
  metadata : Typed
  parentCheckpointId : Option String
  /-- Task, channel and value. -/
  writes : List (String × String × Typed)

/-- The serialisation of blobs : what is encoded can be decoded. -/
structure BlobCodec where
  encode : Blob → List UInt8
  decode : List UInt8 → Option Blob
  decode_encode : ∀ b, decode (encode b) = some b
  /-- `dumps_typed({})`. -/
  emptyObject : Typed

/-- The placeholder that `aput_writes` creates. -/
def BlobCodec.shell (codec : BlobCodec) : Blob := ⟨codec.emptyObject, codec.emptyObject, none, []⟩

def blobKey (ns checkpointId : String) : String :=
  if ns = "" then checkpointId else ns ++ nsSep.toString ++ checkpointId

/-! ## Calls -/

inductive SaverOp where
  | aput (checkpoint metadata : Typed) (parentId : Option String)
  | aputWrites (taskId : String) (writes : List (String × Typed))

structure SaverCall where
  ns : String
  checkpointId : String
  op : SaverOp

def SaverCall.key (c : SaverCall) : String := blobKey c.ns c.checkpointId

def SaverOp.isAput : SaverOp → Bool
  | .aput .. => true
  | .aputWrites .. => false

/-- The entries that a call adds to the pending writes. -/
def SaverOp.entries : SaverOp → List (String × String × Typed)
  | .aput .. => []
  | .aputWrites taskId writes => writes.map fun w => (taskId, w.1, w.2)

/-- The blob that a call puts, given the one that it read. It raises on a blob that `aput_writes`
cannot decode. -/
def SaverOp.blob (codec : BlobCodec) (seen : Option (List UInt8)) : SaverOp → Option Blob
  | .aput checkpoint metadata parentId =>
    let existing := ((seen.bind codec.decode).map Blob.writes).getD []
    some ⟨checkpoint, metadata, parentId, existing⟩
  | .aputWrites taskId writes =>
    (seen.elim (some codec.shell) codec.decode).map fun blob =>
      { blob with writes := blob.writes ++ (SaverOp.aputWrites taskId writes).entries }

/-- The checkpoint, metadata and parent of a blob are those of an `aput`. -/
def SaverOp.Wrote (b : Blob) : SaverOp → Prop
  | .aput checkpoint metadata parentId =>
    b.checkpoint = checkpoint ∧ b.metadata = metadata ∧ b.parentCheckpointId = parentId
  | .aputWrites .. => False

section Blob

variable {codec : BlobCodec} {seen : Option (List UInt8)} {op : SaverOp} {b blob : Blob}

section

variable (h : op.blob codec seen = some blob)
include h

theorem SaverOp.mem_writes_of_entries : ∀ w ∈ op.entries, w ∈ blob.writes := by
  cases op with
  | aput => simp [entries]
  | aputWrites taskId writes =>
    obtain ⟨b, -, rfl⟩ := Option.map_eq_some_iff.1 h
    exact fun w hw => List.mem_append_right b.writes hw

/-- The writes of the blob that was read are kept. -/
theorem SaverOp.mem_writes_of_seen (hb : seen.bind codec.decode = some b) :
    ∀ w ∈ b.writes, w ∈ blob.writes := by
  cases op with
  | aput =>
    cases h
    simp [hb]
  | aputWrites =>
    obtain ⟨_, rfl, hraw⟩ := Option.bind_eq_some_iff.1 hb
    obtain ⟨_, hb', rfl⟩ := Option.map_eq_some_iff.1 h
    cases hb'.symm.trans hraw
    exact fun w hw => List.mem_append_left _ hw

theorem SaverOp.wrote_of_isAput (hop : op.isAput) : op.Wrote blob := by
  cases op with
  | aput =>
    cases h
    exact ⟨rfl, rfl, rfl⟩
  | aputWrites => cases hop

end

/-- `aput_writes` keeps the checkpoint of the blob that was read. -/
theorem SaverOp.wrote_of_seen {op' : SaverOp} (h : op.blob codec seen = some blob)
    (hop : op.isAput = false) (hb : seen.bind codec.decode = some b) (hwrote : op'.Wrote b) :
    op'.Wrote blob := by
  cases op with
  | aput => cases hop
  | aputWrites =>
    obtain ⟨_, rfl, hraw⟩ := Option.bind_eq_some_iff.1 hb
    obtain ⟨_, hb', rfl⟩ := Option.map_eq_some_iff.1 h
    cases hb'.symm.trans hraw
    cases op' with
    | aput | aputWrites => exact hwrote

end Blob

/-! ## Requests -/

def casMaxAttempts : ℕ := 8

/-- Where a call is : about to read, about to put on what it read, or at its end. -/
inductive SaverPhase where
  | get (attempt : ℕ)
  | put (attempt : ℕ) (seen : Option (ℤ × List UInt8))
  | returned
  /-- Given up because the run is not in flight. -/
  | dropped
  | raised
deriving DecidableEq

inductive GetReply where
  | answered
  /-- A gateway has stripped the `ETag`. -/
  | noETag
  | notInflight
  | failed

inductive PutReply where
  | answered
  /-- The server acts on the request, and its answer does not arrive. -/
  | lost
  | notInflight
  | failed

inductive SaverEvent where
  | get (i : ℕ) (reply : GetReply)
  | put (i : ℕ) (reply : PutReply) (now : String)

/-- A thread of a tenant, and the calls that are made on it. -/
structure SaverEnv where
  tenant : String
  threadId : String
  codec : BlobCodec
  calls : ℕ → SaverCall

structure SaverState where
  table : OpaqueTable
  phase : ℕ → SaverPhase
  /-- The calls whose put took effect. -/
  committed : List ℕ

namespace SaverState

def init : SaverState := ⟨.empty, fun _ => .get 0, []⟩

def setPhase (st : SaverState) (i : ℕ) (p : SaverPhase) : SaverState :=
  { st with phase := Function.update st.phase i p }

end SaverState

namespace SaverEnv

variable (env : SaverEnv) {st : SaverState}

def ctx : Ctx := ⟨env.tenant, false⟩

def key (i : ℕ) : String := (env.calls i).key

/-- The row of a blob. -/
def row (st : SaverState) (key : String) : Option OpaqueCheckpoint :=
  Table.get? st.table (env.tenant, env.threadId, key)

/-- The answer to a read : the path of the id `latest` is that of the latest checkpoint. -/
def read (st : SaverState) (key : String) : Option OpaqueCheckpoint :=
  if key = "latest" then st.table.getLatestOpaqueCheckpoint env.ctx env.threadId ""
  else st.table.getOpaqueCheckpoint env.ctx env.threadId key

/-- After a read, which found what is given. -/
def afterGet (st : SaverState) (i attempt : ℕ) (found : Option OpaqueCheckpoint) :
    GetReply → SaverState
  | .answered => st.setPhase i (.put attempt (found.map fun c => (c.version, c.data)))
  | .noETag => st.setPhase i (if found.isSome then .raised else .put attempt none)
  | .notInflight => st.setPhase i .dropped
  | .failed => st.setPhase i .raised

/-- The server's part of a put : the ids that have no path of their own are refused. -/
def serve (st : SaverState) (i : ℕ) (seen : Option (ℤ × List UInt8)) (blob : Blob) (now : String) :
    Except StoreError (ℤ × OpaqueTable) :=
  if env.key i = "" || env.key i = "latest" then .error (.message "bad request")
  else st.table.put env.ctx env.threadId (env.key i) (env.codec.encode blob) "langgraph"
    (some (seen.elim opaqueCreateOnly Prod.fst)) now

/-- After a put that the server acted on; a conflict is `412`. -/
def afterServe (st : SaverState) (i attempt : ℕ) (acknowledged : Bool) :
    Except StoreError (ℤ × OpaqueTable) → SaverState
  | .ok (_, table) =>
    { table := table
      phase := Function.update st.phase i (if acknowledged then .returned else .raised)
      committed := i :: st.committed }
  | .error (.conflict ..) =>
    st.setPhase i (if acknowledged && attempt + 1 < casMaxAttempts then .get (attempt + 1)
      else .raised)
  | .error _ => st.setPhase i .raised

def step : SaverEvent → SaverState → SaverState
  | .get i reply, st =>
    match st.phase i with
    | .get attempt =>
      -- `aput_writes` raises when it is not told a checkpoint
      if !(env.calls i).op.isAput && (env.calls i).checkpointId = "" then st.setPhase i .raised
      else afterGet st i attempt (env.read st (env.key i)) reply
    | _ => st
  | .put i reply now, st =>
    match st.phase i with
    | .put attempt seen =>
      match (env.calls i).op.blob env.codec (seen.map Prod.snd) with
      | none => st.setPhase i .raised
      | some blob =>
        match reply with
        | .answered => afterServe st i attempt true (env.serve st i seen blob now)
        | .lost => afterServe st i attempt false (env.serve st i seen blob now)
        | .notInflight => st.setPhase i .dropped
        | .failed => st.setPhase i .raised
    | _ => st

/-! ## What a step does -/

/-- What a step can do : nothing, move one call, which takes a version and a blob only from what is
stored, or make the put of one call durable. -/
inductive SaverStep (st : SaverState) : SaverState → Prop where
  | idle : SaverStep st st
  | move (i : ℕ) (p : SaverPhase) (hp : p ≠ .returned)
      (hput : ∀ n v raw, p = .put n (some (v, raw)) →
        ∃ c, env.read st (env.key i) = some c ∧ c.version = v ∧ c.data = raw) :
      SaverStep st (st.setPhase i p)
  | commit (i n : ℕ) (seen : Option (ℤ × List UInt8)) (blob : Blob) (now : String) (version : ℤ)
      (table : OpaqueTable) (p : SaverPhase) (hphase : st.phase i = .put n seen)
      (hblob : (env.calls i).op.blob env.codec (seen.map Prod.snd) = some blob)
      (hkey : env.key i ≠ "latest")
      (hput : st.table.put env.ctx env.threadId (env.key i) (env.codec.encode blob) "langgraph"
        (some (seen.elim opaqueCreateOnly Prod.fst)) now = .ok (version, table))
      (hp : p = .returned ∨ p = .raised) :
      SaverStep st ⟨table, Function.update st.phase i p, i :: st.committed⟩

variable {p : SaverPhase}

theorem SaverStep.ended (st : SaverState) (i : ℕ) (hp : p ≠ .returned)
    (hput : ∀ n seen, p ≠ .put n seen) : SaverStep env st (st.setPhase i p) :=
  .move i p hp fun n _ _ h => absurd h (hput n _)

theorem saverStep_afterGet (st : SaverState) (i n : ℕ) (reply : GetReply) :
    SaverStep env st (afterGet st i n (env.read st (env.key i)) reply) := by
  cases reply with
  | answered =>
    refine .move i _ nofun fun n v raw h => ?_
    cases hread : env.read st (env.key i) with
    | none => simp [hread] at h
    | some c => exact ⟨c, rfl, by simp_all⟩
  | noETag =>
    cases hread : env.read st (env.key i) with
    | none => exact .move i (.put n none) nofun nofun
    | some => exact .ended env st i nofun nofun
  | notInflight | failed => exact .ended env st i nofun nofun

theorem saverStep_afterServe {i n : ℕ} {seen : Option (ℤ × List UInt8)}
    {blob : Blob} (now : String) (acknowledged : Bool) (hphase : st.phase i = .put n seen)
    (hblob : (env.calls i).op.blob env.codec (seen.map Prod.snd) = some blob) :
    SaverStep env st (afterServe st i n acknowledged (env.serve st i seen blob now)) := by
  cases hserve : env.serve st i seen blob now with
  | error e =>
    cases e with
    | conflict =>
      simp only [afterServe]
      split_ifs
      · exact .ended env st i nofun nofun
      · exact .ended env st i nofun nofun
    | _ => exact .ended env st i nofun nofun
  | ok res =>
    unfold serve at hserve
    split_ifs at hserve with hkey
    simp only [Bool.or_eq_true, decide_eq_true_eq, not_or] at hkey
    refine .commit i n seen blob now res.1 res.2 _ hphase hblob hkey.2 hserve ?_
    cases acknowledged <;> simp

theorem saverStep_step (ev : SaverEvent) (st : SaverState) : SaverStep env st (env.step ev st) := by
  cases ev with
  | get i reply =>
    simp only [step]
    cases st.phase i with
    | get n =>
      split_ifs
      · exact .ended env st i nofun nofun
      · exact env.saverStep_afterGet st i n reply
    | _ => exact .idle
  | put i reply now =>
    simp only [step]
    cases hphase : st.phase i with
    | put n seen =>
      cases hblob : (env.calls i).op.blob env.codec (seen.map Prod.snd) with
      | none =>
        simp only [hblob]
        exact .ended env st i nofun nofun
      | some =>
        simp only [hblob]
        cases reply with
        | answered => exact env.saverStep_afterServe now true hphase hblob
        | lost => exact env.saverStep_afterServe now false hphase hblob
        | notInflight | failed => exact .ended env st i nofun nofun
    | _ => exact .idle

/-! ## The invariant -/

/-- What the blob of a key holds, given the calls whose puts took effect. -/
structure Holds (committed : List ℕ) (key : String) (b : Blob) : Prop where
  writes : ∀ i ∈ committed, env.key i = key → ∀ w ∈ (env.calls i).op.entries, w ∈ b.writes
  checkpoint : (∃ i ∈ committed, env.key i = key ∧ (env.calls i).op.isAput = true) →
    ∃ i ∈ committed, env.key i = key ∧ (env.calls i).op.Wrote b

structure Inv (st : SaverState) : Prop where
  /-- A call that is about to put has read the blob that is stored as long as its version is. -/
  seen : ∀ i n v raw, st.phase i = .put n (some (v, raw)) → env.key i ≠ "latest" →
    1 ≤ v ∧ ∃ c, env.row st (env.key i) = some c ∧ v ≤ c.version ∧ (c.version = v → c.data = raw)
  version : ∀ key c, env.row st key = some c → 1 ≤ c.version
  /-- A blob is there because some put of it took effect. -/
  origin : ∀ key c, env.row st key = some c → ∃ i ∈ st.committed, env.key i = key
  stored : ∀ i ∈ st.committed, ∃ c b, env.row st (env.key i) = some c ∧
    env.codec.decode c.data = some b ∧ env.Holds st.committed (env.key i) b
  returned : ∀ i, st.phase i = .returned → i ∈ st.committed

theorem inv_init : env.Inv .init where
  seen _ _ _ _ h := nomatch h
  version _ _ h := nomatch h
  origin _ _ h := nomatch h
  stored _ h := nomatch h
  returned _ h := nomatch h

/-- Moving a call keeps the invariant. -/
theorem Inv.move (h : env.Inv st) {i : ℕ} (hp : p ≠ .returned)
    (hput : ∀ n v raw, p = .put n (some (v, raw)) →
      ∃ c, env.read st (env.key i) = some c ∧ c.version = v ∧ c.data = raw) :
    env.Inv (st.setPhase i p) where
  version := h.version
  origin := h.origin
  stored := h.stored
  seen j n v raw hj hkey := by
    by_cases hji : j = i
    · subst hji
      obtain ⟨c, hread, rfl, rfl⟩ := hput n v raw (by simpa [SaverState.setPhase] using hj)
      rw [read, if_neg hkey, getOpaqueCheckpoint_eq rfl] at hread
      exact ⟨h.version _ c hread, c, hread, le_rfl, fun _ => rfl⟩
    · exact h.seen j n v raw (by simpa [SaverState.setPhase, hji] using hj) hkey
  returned j hj := by
    by_cases hji : j = i
    · subst hji
      exact absurd (by simpa [SaverState.setPhase] using hj) hp
    · exact h.returned j (by simpa [SaverState.setPhase, hji] using hj)

section Commit

variable {env} {i n : ℕ} {seen : Option (ℤ × List UInt8)} {blob : Blob}
  {now : String} {version : ℤ} {table : OpaqueTable}
  {s : Option (List UInt8)} {key : String} {committed : List ℕ}

/-- A put that takes effect replaces what its call has read. -/
theorem Inv.replaced (h : env.Inv st) (hphase : st.phase i = .put n seen)
    (hkey : env.key i ≠ "latest")
    (hput : st.table.put env.ctx env.threadId (env.key i) (env.codec.encode blob) "langgraph"
      (some (seen.elim opaqueCreateOnly Prod.fst)) now = .ok (version, table)) :
    (env.row st (env.key i)).map OpaqueCheckpoint.data = seen.map Prod.snd := by
  have spec := put_spec hput
  rcases seen with _ | ⟨v, raw⟩
  · have habsent : env.row st (env.key i) = none := spec.absent rfl
    rw [habsent]
    rfl
  · obtain ⟨_, c, hc, -, hdata⟩ := h.seen i n v raw hphase hkey
    obtain ⟨_, hc', hversion⟩ := spec.current v rfl (by
      unfold opaqueCreateOnly
      omega)
    cases hc.symm.trans hc'
    rw [hc, Option.map_some, hdata hversion]
    rfl

/-- No put of a key that has no blob took effect. -/
theorem Inv.not_committed (h : env.Inv st) (hrow : env.row st key = none) {j : ℕ}
    (hj : j ∈ st.committed) : env.key j ≠ key := by
  rintro rfl
  obtain ⟨c, -, hc, -⟩ := h.stored j hj
  rw [hrow] at hc
  cases hc

theorem Inv.holds_of_row (h : env.Inv st) {c : OpaqueCheckpoint} (hc : env.row st key = some c) :
    ∃ b, env.codec.decode c.data = some b ∧ env.Holds st.committed key b := by
  obtain ⟨j, hj, rfl⟩ := h.origin key c hc
  obtain ⟨_, b, hc', hb, hholds⟩ := h.stored j hj
  cases hc.symm.trans hc'
  exact ⟨b, hb, hholds⟩

/-- A blob without a predecessor is the work of one call. -/
theorem Inv.holds_first (h : env.Inv st) (hrow : env.row st (env.key i) = none)
    (hblob : (env.calls i).op.blob env.codec s = some blob) :
    env.Holds (i :: st.committed) (env.key i) blob where
  writes j hj hkey w hw := by
    rcases List.mem_cons.1 hj with rfl | hj
    · exact SaverOp.mem_writes_of_entries hblob w hw
    · exact absurd hkey (h.not_committed hrow hj)
  checkpoint := by
    rintro ⟨j, hj, hkey, haput⟩
    rcases List.mem_cons.1 hj with rfl | hj
    · exact ⟨j, List.mem_cons_self, rfl, SaverOp.wrote_of_isAput hblob haput⟩
    · exact absurd hkey (h.not_committed hrow hj)

/-- A blob that is computed from the stored one holds what that did, and the part of the call. -/
theorem Holds.next {b : Blob}
    (h : env.Holds committed (env.key i) b) (hb : s.bind env.codec.decode = some b)
    (hblob : (env.calls i).op.blob env.codec s = some blob) :
    env.Holds (i :: committed) (env.key i) blob where
  writes j hj hkey w hw := by
    rcases List.mem_cons.1 hj with rfl | hj
    · exact SaverOp.mem_writes_of_entries hblob w hw
    · exact SaverOp.mem_writes_of_seen hblob hb w (h.writes j hj hkey w hw)
  checkpoint := by
    rintro ⟨j, hj, hkey, haput⟩
    cases hop : (env.calls i).op.isAput with
    | true => exact ⟨i, List.mem_cons_self, rfl, SaverOp.wrote_of_isAput hblob hop⟩
    | false =>
      -- the call is not an `aput`, so the `aput` that committed did so before
      have hj' : j ∈ committed := (List.mem_cons.1 hj).resolve_left (by
        rintro rfl
        rw [hop] at haput
        cases haput)
      obtain ⟨k, hk, hkkey, hwrote⟩ := h.checkpoint ⟨j, hj', hkey, haput⟩
      exact ⟨k, List.mem_cons_of_mem i hk, hkkey, SaverOp.wrote_of_seen hblob hop hb hwrote⟩

theorem Inv.holds_commit (h : env.Inv st)
    (hseen : (env.row st (env.key i)).map OpaqueCheckpoint.data = seen.map Prod.snd)
    (hblob : (env.calls i).op.blob env.codec (seen.map Prod.snd) = some blob) :
    env.Holds (i :: st.committed) (env.key i) blob := by
  cases hrow : env.row st (env.key i) with
  | none => exact h.holds_first hrow hblob
  | some c =>
    obtain ⟨b, hb, hholds⟩ := h.holds_of_row hrow
    refine hholds.next ?_ hblob
    rw [← hseen, hrow]
    exact hb

/-- A put of another key leaves what a blob holds. -/
theorem Holds.of_other {b : Blob}
    (h : env.Holds committed key b) (hkey : env.key i ≠ key) : env.Holds (i :: committed) key b where
  writes j hj hjkey := by
    rcases List.mem_cons.1 hj with rfl | hj
    · exact absurd hjkey hkey
    · exact h.writes j hj hjkey
  checkpoint := by
    rintro ⟨j, hj, hjkey, haput⟩
    rcases List.mem_cons.1 hj with rfl | hj
    · exact absurd hjkey hkey
    · obtain ⟨k, hk, hwrote⟩ := h.checkpoint ⟨j, hj, hjkey, haput⟩
      exact ⟨k, List.mem_cons_of_mem i hk, hwrote⟩

/-- A put that takes effect keeps the invariant. -/
theorem Inv.commit (h : env.Inv st) {p : SaverPhase} (hphase : st.phase i = .put n seen)
    (hblob : (env.calls i).op.blob env.codec (seen.map Prod.snd) = some blob)
    (hkey : env.key i ≠ "latest")
    (hput : st.table.put env.ctx env.threadId (env.key i) (env.codec.encode blob) "langgraph"
      (some (seen.elim opaqueCreateOnly Prod.fst)) now = .ok (version, table))
    (hp : p = .returned ∨ p = .raised) :
    env.Inv ⟨table, Function.update st.phase i p, i :: st.committed⟩ := by
  have spec := put_spec hput
  have hrow : ∀ key, env.row ⟨table, Function.update st.phase i p, i :: st.committed⟩ key =
      if key = env.key i then some ⟨env.tenant, env.threadId, env.key i, "langgraph",
        env.codec.encode blob, version, now⟩ else env.row st key := by
    intro key
    simp only [row, spec.get?]
    simp [ctx]
  have hnext : version = (env.row st (env.key i)).elim 1 fun c => c.version + 1 := spec.bumped
  constructor
  case seen =>
    intro j m v raw hj hlatest
    have hne : j ≠ i := by
      rintro rfl
      simp only [Function.update_self] at hj
      rcases hp with rfl | rfl <;> cases hj
    obtain ⟨hv, c, hc, hle, hdata⟩ := h.seen j m v raw (by simpa [hne] using hj) hlatest
    refine ⟨hv, ?_⟩
    rw [hrow]
    split_ifs with hjkey
    · -- the version grows, so the blob that was read is no longer the stored one
      rw [← hjkey, hc, Option.elim_some] at hnext
      refine ⟨_, rfl, ?_, fun heq => ?_⟩
      · dsimp only
        omega
      · dsimp only at heq
        omega
    · exact ⟨c, hc, hle, hdata⟩
  case version =>
    intro key c hc
    rw [hrow] at hc
    split_ifs at hc with hkey'
    · cases hc
      cases hold : env.row st (env.key i) with
      | none => simp [hnext, hold]
      | some c₀ =>
        have := h.version _ c₀ hold
        simp only [hnext, hold, Option.elim_some]
        omega
    · exact h.version key c hc
  case origin =>
    intro key c hc
    rw [hrow] at hc
    split_ifs at hc with hkey'
    · exact ⟨i, List.mem_cons_self, hkey'.symm⟩
    · obtain ⟨j, hj, hjkey⟩ := h.origin key c hc
      exact ⟨j, List.mem_cons_of_mem i hj, hjkey⟩
  case stored =>
    intro j hj
    rw [hrow]
    split_ifs with hjkey
    · rw [hjkey]
      exact ⟨_, blob, rfl, env.codec.decode_encode blob,
        h.holds_commit (h.replaced hphase hkey hput) hblob⟩
    · have hj' : j ∈ st.committed := (List.mem_cons.1 hj).resolve_left fun hji => hjkey (hji ▸ rfl)
      obtain ⟨c, b, hc, hb, hholds⟩ := h.stored j hj'
      exact ⟨c, b, hc, hb, hholds.of_other (Ne.symm hjkey)⟩
  case returned =>
    intro j hj
    by_cases hji : j = i
    · exact hji ▸ List.mem_cons_self
    · exact List.mem_cons_of_mem i (h.returned j (by simpa [hji] using hj))

end Commit

theorem Inv.step (h : env.Inv st) (ev : SaverEvent) : env.Inv (env.step ev st) := by
  have hstep := env.saverStep_step ev st
  generalize env.step ev st = st' at hstep ⊢
  cases hstep with
  | idle => exact h
  | move i p hp hput => exact h.move env hp hput
  | commit i n seen blob now version table p hphase hblob hkey hput hp =>
    exact h.commit hphase hblob hkey hput hp

theorem inv_run (evs : List SaverEvent) : env.Inv (Trace.run env.step evs .init) :=
  Trace.invariant_of_step (fun ev _ h => h.step env ev) evs env.inv_init

theorem committed_step (ev : SaverEvent) (st : SaverState) :
    st.committed ⊆ (env.step ev st).committed := by
  have hstep := env.saverStep_step ev st
  generalize env.step ev st = st' at hstep ⊢
  cases hstep with
  | idle | move => exact List.Subset.refl _
  | commit => exact List.subset_cons_self _ _

/-! ## Merging -/

/-- After any run, an `aput_writes` that has returned has its writes in the stored blob of its
checkpoint from then on, and once an `aput` took effect the stored checkpoint is that of such an
`aput`. -/
theorem saver_merges (evs later : List SaverEvent) (i : ℕ) :
    ((Trace.run env.step evs .init).phase i = .returned →
      ∃ c b, env.row (Trace.run env.step (evs ++ later) .init) (env.key i) = some c ∧
        env.codec.decode c.data = some b ∧ ∀ taskId writes,
          (env.calls i).op = .aputWrites taskId writes →
            ∀ w ∈ writes, (taskId, w.1, w.2) ∈ b.writes) ∧
    (i ∈ (Trace.run env.step evs .init).committed → (env.calls i).op.isAput = true →
      ∃ c b, env.row (Trace.run env.step (evs ++ later) .init) (env.key i) = some c ∧
        env.codec.decode c.data = some b ∧
        ∃ j ∈ (Trace.run env.step (evs ++ later) .init).committed,
          env.key j = env.key i ∧ (env.calls j).op.Wrote b) := by
  have hlater : i ∈ (Trace.run env.step evs .init).committed →
      i ∈ (Trace.run env.step (evs ++ later) .init).committed := fun h => by
    rw [Trace.run_append]
    exact Trace.invariant_of_step (fun ev st h => env.committed_step ev st h) later h
  constructor
  · intro hreturned
    have hmem := hlater ((env.inv_run evs).returned i hreturned)
    obtain ⟨c, b, hc, hb, hholds⟩ := (env.inv_run (evs ++ later)).stored i hmem
    refine ⟨c, b, hc, hb, fun taskId writes hop w hw => hholds.writes i hmem rfl _ ?_⟩
    rw [hop]
    exact List.mem_map_of_mem hw
  · intro hcommitted haput
    have hmem := hlater hcommitted
    obtain ⟨c, b, hc, hb, hholds⟩ := (env.inv_run (evs ++ later)).stored i hmem
    exact ⟨c, b, hc, hb, hholds.checkpoint ⟨i, hmem, rfl, haput⟩⟩

end SaverEnv

/-! ## Keys of native checkpoints

The savers of LangGraph itself have no tenants, so the runner puts the tenant before the thread in
their keys. The default tenant has bare keys, in the same space, and what the validation accepts
keeps the two apart. -/

namespace NativeKeys

open Strings (Free isSpace)

def defaultTenant : String := "default"

/-- `tenant_id or _DEFAULT`. -/
def effectiveTenant (tenantId : Option String) : String :=
  if tenantId.getD "" = "" then defaultTenant else tenantId.getD ""

def checkpointThreadId (tenantId : Option String) (threadId : String) : String :=
  if effectiveTenant tenantId = defaultTenant then threadId
  else effectiveTenant tenantId ++ ":" ++ threadId

/-- White space for Python : some controls are. -/
def pySpace (c : Char) : Bool := isSpace c || (0x1c ≤ c.toNat && c.toNat ≤ 0x1f)

def strip (s : String) : String :=
  String.ofList ((s.toList.dropWhile pySpace).reverse.dropWhile pySpace).reverse

def validateNativeCheckpointIdentity (tenantId : Option String) (threadId mode : String) :
    Except String Unit :=
  let tenant := effectiveTenant tenantId
  if mode ∉ ["direct-postgres", "memory"] then
    .error "native checkpoint identity validation requires a native saver mode"
  else if mode = "direct-postgres" ∧ tenant ≠ defaultTenant then
    .error ("ambiguous native LangGraph checkpoint ownership for named tenants in direct-postgres " ++
      "mode; use proxy checkpoint mode after explicitly resolving legacy native history. An " ++
      "existing tenant-prefix key cannot prove its original owner; no state is imported automatically")
  else if tenant ≠ strip tenant ∨ (∃ c ∈ tenant.toList, c.toNat < 32 ∨ c.toNat = 127) ∨
      tenant = defaultTenant ∧ ¬ Free ':' threadId ∨ tenant ≠ defaultTenant ∧ ¬ Free ':' tenant then
    .error ("ambiguous native LangGraph checkpoint identity; native savers require delimiter-free " ++
      "tenant IDs and default-tenant thread IDs without ':'. Use proxy checkpoint mode after " ++
      "explicitly resolving any existing native history; no state is imported automatically")
  else .ok ()

/-- `current_tenant`, after `bind_tenant`. -/
def currentTenant (tenantId : Option String) : String := effectiveTenant (some (effectiveTenant tenantId))

/-- `storage_thread_id`, while a tenant is bound. -/
def storageThreadId (tenantId : Option String) (configThreadId : String) : String :=
  let pre := currentTenant tenantId ++ ":"
  if currentTenant tenantId ≠ defaultTenant ∧ pre.toList <+: configThreadId.toList then
    String.ofList (configThreadId.toList.drop pre.toList.length)
  else configThreadId

/-- What is accepted has no delimiter in the part of the key that ends at it. -/
theorem free_of_valid {tenantId : Option String} {threadId : String}
    (h : validateNativeCheckpointIdentity tenantId threadId "memory" = .ok ()) :
    if effectiveTenant tenantId = defaultTenant then Free ':' threadId
    else Free ':' (effectiveTenant tenantId) := by
  unfold validateNativeCheckpointIdentity at h
  dsimp only at h
  split_ifs at h with hmode hdirect hrefused
  simp only [not_or, not_and, not_not] at hrefused
  split_ifs with hdefault
  · exact hrefused.2.2.1 hdefault
  · exact hrefused.2.2.2 hdefault

theorem currentTenant_eq (tenantId : Option String) :
    currentTenant tenantId = effectiveTenant tenantId := by
  have hne : effectiveTenant tenantId ≠ "" := by
    unfold effectiveTenant
    split_ifs with h
    · decide
    · exact h
  rw [currentTenant, effectiveTenant, Option.getD_some, if_neg hne]

/-- Accepted pairs of a tenant and a thread have different keys, and a key gives its thread back. -/
theorem native_checkpoint_keys (tenantId : Option String) (threadId : String) :
    (∀ tenantId' threadId',
      validateNativeCheckpointIdentity tenantId threadId "memory" = .ok () →
      validateNativeCheckpointIdentity tenantId' threadId' "memory" = .ok () →
      checkpointThreadId tenantId threadId = checkpointThreadId tenantId' threadId' →
      effectiveTenant tenantId = effectiveTenant tenantId' ∧ threadId = threadId') ∧
    storageThreadId tenantId (checkpointThreadId tenantId threadId) = threadId := by
  constructor
  · intro tenantId' threadId' hvalid hvalid' h
    have hfree := free_of_valid hvalid
    have hfree' := free_of_valid hvalid'
    unfold checkpointThreadId at h
    have hcolon : ∀ {s t : String}, ¬ Free ':' (s ++ ":" ++ t) := by simp [Free]
    split_ifs at h hfree hfree' with htenant htenant' htenant'
    · exact ⟨htenant.trans htenant'.symm, h⟩
    · exact absurd (h ▸ hfree) hcolon
    · exact absurd (h ▸ hfree') hcolon
    · rw [String.append_assoc, String.append_assoc] at h
      exact Strings.eq_of_append_sep hfree hfree' h
  · have hkey : (effectiveTenant tenantId ++ ":" ++ threadId).toList =
        (effectiveTenant tenantId ++ ":").toList ++ threadId.toList := String.toList_append
    simp only [storageThreadId, checkpointThreadId, currentTenant_eq]
    split_ifs with hdefault hprefix hprefix
    · exact absurd hdefault hprefix.1
    · rfl
    · rw [hkey, List.drop_left, String.ofList_toList]
    · exact absurd ⟨hdefault, hkey ▸ List.prefix_append _ _⟩ hprefix

end NativeKeys

end Runkite
