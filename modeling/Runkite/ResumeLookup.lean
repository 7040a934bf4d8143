import Runkite.ProxySaver
import Runkite.SelfDelimiting

/-!
# The checkpoint a run resumes from

`aget_tuple` without a checkpoint id asks for the latest checkpoint of a namespace, the matching key
that is the greatest. The shell that `aput_writes` creates for the next checkpoint is such a key
before the `aput` of that checkpoint is made, and stays one if the runner crashes in between.

`resume_iff` says when `aget_tuple` gives a checkpoint that some `aput` has put. `shell_resumed` is a
run in which the shell is what a thread resumes from.
-/

namespace Runkite

open OpaqueTable

def parseBlobKey (key : String) : String × String :=
  if nsSep ∈ key.toList then
    (String.ofList (key.toList.takeWhile (· ≠ nsSep)),
      String.ofList ((key.toList.dropWhile (· ≠ nsSep)).drop 1))
  else ("", key)

/-- A `CheckpointTuple`; the values are as they were serialised. -/
structure CheckpointTuple where
  ns : String
  checkpointId : String
  checkpoint : Typed
  metadata : Typed
  parentId : Option String
  pendingWrites : List (String × String × Typed)

def tupleFromBlob (key : String) (b : Blob) : CheckpointTuple where
  ns := (parseBlobKey key).1
  checkpointId := (parseBlobKey key).2
  checkpoint := b.checkpoint
  metadata := b.metadata
  parentId := b.parentCheckpointId.filter (· ≠ "")
  pendingWrites := b.writes

theorem SaverOp.isAput_of_wrote {op : SaverOp} {b : Blob} (h : op.Wrote b) : op.isAput := by
  cases op with
  | aput => rfl
  | aputWrites => exact absurd h id

namespace SaverEnv

variable (env : SaverEnv)

/-- The key and the blob that `aget_tuple` without a checkpoint id makes its tuple of. It raises if
the blob cannot be decoded. -/
def latestBlob (st : SaverState) (ns : String) : Except Unit (Option (String × Blob)) :=
  match st.table.getLatestOpaqueCheckpoint env.ctx env.threadId ns with
  | none => .ok none
  | some c =>
    match env.codec.decode c.data with
    | none => .error ()
    | some b => .ok (some (c.checkpointId, b))

/-- `aget_tuple` without a checkpoint id. -/
def agetTuple (st : SaverState) (ns : String) : Except Unit (Option CheckpointTuple) :=
  (env.latestBlob st ns).map (Option.map fun kb => tupleFromBlob kb.1 kb.2)

/-! ## Keys -/

/-- An `aput` of the key took effect. -/
def Put (st : SaverState) (key : String) : Prop :=
  ∃ i ∈ st.committed, (env.calls i).op.isAput = true ∧ env.key i = key

/-- An `aput` in the namespace took effect. -/
def PutIn (st : SaverState) (ns : String) : Prop :=
  ∃ i ∈ st.committed, (env.calls i).op.isAput = true ∧ (env.calls i).ns = ns

/-- The key is of a put that took effect, and the lookup of the namespace matches it. -/
def Matches (st : SaverState) (ns key : String) : Prop :=
  (∃ i ∈ st.committed, env.key i = key) ∧ inNamespace ns key = true

variable {st : SaverState} {ns key : String} {c : OpaqueCheckpoint}

theorem Inv.exists_row_iff {env : SaverEnv} (h : env.Inv st) (key : String) :
    (∃ c, env.row st key = some c) ↔ ∃ i ∈ st.committed, env.key i = key := by
  constructor
  · rintro ⟨c, hc⟩
    exact h.origin key c hc
  · rintro ⟨i, hi, rfl⟩
    obtain ⟨c, -, hc, -⟩ := h.stored i hi
    exact ⟨c, hc⟩

/-- The rows that the lookup looks at are those of the matching keys. -/
theorem mem_lookup_iff {ns : String} :
    (c ∈ st.table.rows.filter fun c => c.threadId = env.threadId && inNamespace ns c.checkpointId &&
      env.ctx.sees c.tenantId) ↔
      env.row st c.checkpointId = some c ∧ inNamespace ns c.checkpointId := by
  have hsees : env.ctx.sees c.tenantId ↔ c.tenantId = env.tenant := decide_eq_true_iff
  rw [List.mem_filter, row, Table.get?_eq_some_iff]
  simp only [OpaqueCheckpoint.key, Bool.and_eq_true, decide_eq_true_iff, hsees, Prod.mk.injEq,
    and_true]
  tauto

section

variable {env : SaverEnv} (h : env.Inv st)
include h

/-- The matching rows are those of the matching keys. -/
theorem Inv.matches_iff :
    env.Matches st ns key ↔ ∃ c, c.checkpointId = key ∧ c ∈ st.table.rows.filter fun c =>
      c.threadId = env.threadId && inNamespace ns c.checkpointId && env.ctx.sees c.tenantId := by
  simp only [env.mem_lookup_iff]
  constructor
  · rintro ⟨hkey, hns⟩
    obtain ⟨c, hrow⟩ := (h.exists_row_iff key).2 hkey
    obtain rfl : c.checkpointId = key := congrArg (·.2.2) (Table.key_of_get? hrow)
    exact ⟨c, rfl, hrow, hns⟩
  · rintro ⟨c, rfl, hrow, hns⟩
    exact ⟨(h.exists_row_iff _).1 ⟨c, hrow⟩, hns⟩

/-- The latest checkpoint is that of the greatest matching key. -/
theorem Inv.greatest_of_latestBlob {b : Blob}
    (hlatest : env.latestBlob st ns = .ok (some (key, b))) :
    env.Matches st ns key ∧ ∀ key', env.Matches st ns key' → key' ≤ key := by
  unfold latestBlob at hlatest
  cases hc : st.table.getLatestOpaqueCheckpoint env.ctx env.threadId ns with
  | none => simp [hc] at hlatest
  | some c =>
    obtain rfl : c.checkpointId = key := by
      cases hdecode : env.codec.decode c.data <;> simp_all
    obtain ⟨hmem, hgreatest⟩ := greatest_eq_some hc
    refine ⟨h.matches_iff.2 ⟨c, rfl, hmem⟩, fun key' hkey' => ?_⟩
    obtain ⟨c', rfl, hmem'⟩ := h.matches_iff.1 hkey'
    exact hgreatest c' hmem'

/-- There is a latest checkpoint as soon as a key matches. -/
theorem Inv.exists_latestBlob (hkey : env.Matches st ns key) :
    ∃ key' b, env.latestBlob st ns = .ok (some (key', b)) := by
  obtain ⟨c, -, hmem⟩ := h.matches_iff.1 hkey
  cases hc : st.table.getLatestOpaqueCheckpoint env.ctx env.threadId ns with
  | none =>
    rw [getLatestOpaqueCheckpoint, greatest_eq_none_iff] at hc
    rw [hc] at hmem
    cases hmem
  | some c' =>
    obtain ⟨hrow, -⟩ := env.mem_lookup_iff.1 (greatest_eq_some hc).1
    obtain ⟨b, hb, -⟩ := h.holds_of_row hrow
    exact ⟨c'.checkpointId, b, by simp only [latestBlob, hc, hb]⟩

/-- The blob that is stored under a key that some `aput` put is the blob of such an `aput`. -/
theorem Inv.wrote_of_latestBlob {b : Blob} (hlatest : env.latestBlob st ns = .ok (some (key, b)))
    (hput : env.Put st key) : ∃ i ∈ st.committed, env.key i = key ∧ (env.calls i).op.Wrote b := by
  unfold latestBlob at hlatest
  cases hc : st.table.getLatestOpaqueCheckpoint env.ctx env.threadId ns with
  | none => simp [hc] at hlatest
  | some =>
    obtain ⟨hrow, -⟩ := env.mem_lookup_iff.1 (greatest_eq_some hc).1
    obtain ⟨_, hb', hholds⟩ := h.holds_of_row hrow
    simp only [hc, hb', Except.ok.injEq, Option.some.injEq, Prod.mk.injEq] at hlatest
    obtain ⟨rfl, rfl⟩ := hlatest
    obtain ⟨i, hi, haput, hkey⟩ := hput
    exact hholds.checkpoint ⟨i, hi, hkey, haput⟩

end

/-! ## Resuming -/

/-- After any run, a namespace resumes from the checkpoint of an `aput`, and only if some `aput` was
made in it, iff each matching key is outranked by another or is of such an `aput`. -/
theorem resume_iff (evs : List SaverEvent) (ns : String) :
    (∀ key b, env.latestBlob (Trace.run env.step evs .init) ns = .ok (some (key, b)) →
      (∃ i ∈ (Trace.run env.step evs .init).committed, env.key i = key ∧
        (env.calls i).op.Wrote b) ∧ env.PutIn (Trace.run env.step evs .init) ns) ↔
    ∀ key, env.Matches (Trace.run env.step evs .init) ns key →
      (∃ key', env.Matches (Trace.run env.step evs .init) ns key' ∧ key < key') ∨
      env.Put (Trace.run env.step evs .init) key ∧ env.PutIn (Trace.run env.step evs .init) ns := by
  have hinv := env.inv_run evs
  generalize Trace.run env.step evs .init = st at hinv ⊢
  constructor
  · intro hresume key hkey
    obtain ⟨key', b, hlatest⟩ := hinv.exists_latestBlob hkey
    obtain ⟨hmatches, hgreatest⟩ := hinv.greatest_of_latestBlob hlatest
    rcases lt_or_eq_of_le (hgreatest key hkey) with hlt | rfl
    · exact .inl ⟨key', hmatches, hlt⟩
    · obtain ⟨⟨i, hi, hkey', hwrote⟩, hns⟩ := hresume key b hlatest
      exact .inr ⟨⟨i, hi, SaverOp.isAput_of_wrote hwrote, hkey'⟩, hns⟩
  · intro hcond key b hlatest
    obtain ⟨hmatches, hgreatest⟩ := hinv.greatest_of_latestBlob hlatest
    rcases hcond key hmatches with ⟨key', hkey', hlt⟩ | ⟨hput, hns⟩
    · exact absurd (hgreatest key' hkey') (not_le_of_gt hlt)
    · exact ⟨hinv.wrote_of_latestBlob hlatest hput, hns⟩

end SaverEnv

/-! ## A serialisation -/

open SelfDelimiting

/-- The fields of a blob as bytes, four for each pending write. -/
def blobFields (b : Blob) : List (List UInt8) :=
  [b.checkpoint.1.toByteArray.data.toList, b.checkpoint.2, b.metadata.1.toByteArray.data.toList,
    b.metadata.2, if b.parentCheckpointId.isSome then [1] else [],
    (b.parentCheckpointId.getD "").toByteArray.data.toList] ++
  b.writes.flatMap fun w => [w.1.toByteArray.data.toList, w.2.1.toByteArray.data.toList,
    w.2.2.1.toByteArray.data.toList, w.2.2.2]

/-- Bytes, each marked as one, up to a byte that is not marked. -/
def byteWord (bs : List UInt8) : List UInt8 := bs.flatMap (fun b => [1, b]) ++ [0]

theorem code_byteWord : Code byteWord := by
  have hmarked : Code fun b : UInt8 => [1, b] := fun a b s t h => by simpa using h
  intro as bs s t h
  simp only [byteWord, List.append_assoc, List.cons_append, List.nil_append] at h
  exact hmarked.flatMap_close (fun a s t h => by simp at h) as bs s t h

/-- The fields, each marked as one. -/
def encodeBlob (b : Blob) : List UInt8 := (blobFields b).flatMap (fun f => 1 :: byteWord f) ++ [0]

theorem bytes_injective {s t : String} (h : s.toByteArray.data.toList = t.toByteArray.data.toList) :
    s = t :=
  String.toByteArray_inj.1 (ByteArray.ext (Array.toList_inj.1 h))

theorem writeFields_injective : ∀ {ws ws' : List (String × String × Typed)},
    (ws.flatMap fun w => [w.1.toByteArray.data.toList, w.2.1.toByteArray.data.toList,
      w.2.2.1.toByteArray.data.toList, w.2.2.2]) =
    (ws'.flatMap fun w => [w.1.toByteArray.data.toList, w.2.1.toByteArray.data.toList,
      w.2.2.1.toByteArray.data.toList, w.2.2.2]) → ws = ws'
  | [], [], _ => rfl
  | [], _ :: _, h => by simp at h
  | _ :: _, [], h => by simp at h
  | (task, channel, type, value) :: ws, (task', channel', type', value') :: ws', h => by
    simp only [List.flatMap_cons, List.cons_append, List.nil_append, List.cons.injEq] at h
    obtain ⟨htask, hchannel, htype, rfl, hws⟩ := h
    rw [bytes_injective htask, bytes_injective hchannel, bytes_injective htype,
      writeFields_injective hws]

theorem blobFields_injective : Function.Injective blobFields := by
  rintro ⟨⟨c₁, c₂⟩, ⟨m₁, m₂⟩, p, ws⟩ ⟨⟨c₁', c₂'⟩, ⟨m₁', m₂'⟩, p', ws'⟩ h
  simp only [blobFields, List.cons_append, List.nil_append, List.cons.injEq] at h
  obtain ⟨hc, rfl, hm, rfl, hsome, hp, hws⟩ := h
  have hparent : p = p' := by
    rcases p with _ | q <;> rcases p' with _ | q'
    · rfl
    · simp at hsome
    · simp at hsome
    · exact congrArg some (bytes_injective hp)
  rw [bytes_injective hc, bytes_injective hm, writeFields_injective hws, hparent]

theorem encodeBlob_injective : Function.Injective encodeBlob := by
  have hmarked : Code fun f : List UInt8 => 1 :: byteWord f := fun f g s t h =>
    code_byteWord f g s t (List.cons.inj h).2
  intro a b h
  exact blobFields_injective
    (hmarked.flatMap_close (fun f s t h => by simp at h) (blobFields a) (blobFields b) [] [] h).1

/-- A serialisation of blobs. -/
noncomputable def serialCodec : BlobCodec where
  encode := encodeBlob
  decode raw := by
    classical
    exact if h : ∃ b, encodeBlob b = raw then some h.choose else none
  decode_encode b := by
    have h : ∃ b', encodeBlob b' = encodeBlob b := ⟨b, rfl⟩
    rw [dif_pos h, encodeBlob_injective h.choose_spec]
  emptyObject := ("json", [123, 125])

/-! ## A crash before the checkpoint -/

/-- The pending writes of a checkpoint are put, and its `aput` never comes. -/
noncomputable def crashedEnv : SaverEnv where
  tenant := "acme"
  threadId := "thread"
  codec := serialCodec
  calls _ := ⟨"", "2", .aputWrites "task" [("messages", ("json", [34, 34]))]⟩

/-- What the call leaves in the store. -/
def pendingShell : Blob :=
  ⟨("json", [123, 125]), ("json", [123, 125]), none, [("task", "messages", ("json", [34, 34]))]⟩

theorem shell_resumed :
    crashedEnv.latestBlob (Trace.run crashedEnv.step [.get 0 .answered, .put 0 .answered "now"] .init)
      "" = .ok (some ("2", pendingShell)) ∧
    ¬ ∃ i ∈ (Trace.run crashedEnv.step [.get 0 .answered, .put 0 .answered "now"] .init).committed,
      (crashedEnv.calls i).op.isAput = true := by
  constructor
  · have hrow : (Trace.run crashedEnv.step [.get 0 .answered, .put 0 .answered "now"]
        .init).table.getLatestOpaqueCheckpoint crashedEnv.ctx crashedEnv.threadId "" =
        some ⟨"acme", "thread", "2", "langgraph", encodeBlob pendingShell, 1, "now"⟩ := by
      decide +kernel
    have hdecode : crashedEnv.codec.decode (encodeBlob pendingShell) = some pendingShell :=
      serialCodec.decode_encode pendingShell
    simp only [SaverEnv.latestBlob, hrow, hdecode]
  · decide +kernel

/-! ## Writes that are put again -/

namespace SaverEnv

variable (env : SaverEnv)

/-- The pending writes that `aget_tuple` with a checkpoint id returns. -/
def pendingWrites (st : SaverState) (key : String) : Option (List (String × String × Typed)) :=
  ((env.read st key).bind fun c => env.codec.decode c.data).map fun b =>
    (tupleFromBlob key b).pendingWrites

/-- Writing the pending writes of a task once more changes nothing exactly if there are none. -/
theorem repeated_writes_iff (evs : List SaverEvent) (ev : SaverEvent) :
    let st := Trace.run env.step evs .init
    let st' := env.step ev st
    st'.table = st.table ∨ ∃ i, st'.committed = i :: st.committed ∧
      ∀ taskId writes, (env.calls i).op = .aputWrites taskId writes →
        (∃ j ∈ st.committed, env.calls j = env.calls i) →
        (env.pendingWrites st' (env.key i) = env.pendingWrites st (env.key i) ↔ writes = []) := by
  intro st st'
  have h : env.Inv st := env.inv_run evs
  have hstep : SaverStep env st st' := env.saverStep_step ev st
  generalize st' = st' at hstep
  cases hstep with
  | idle | move => exact .inl rfl
  | commit i n seen blob now version table p hphase hblob hkey hput =>
    refine .inr ⟨i, rfl, fun taskId writes hop ⟨j, hj, hcall⟩ => ?_⟩
    obtain ⟨c, b, hc, hb, -⟩ := h.stored j hj
    rw [show env.key j = env.key i by rw [key, key, hcall]] at hc
    have hseen := h.replaced hphase hkey hput
    rw [hc, Option.map_some] at hseen
    rw [← hseen, hop] at hblob
    obtain ⟨b', hb', rfl⟩ := Option.map_eq_some_iff.1 hblob
    cases hb.symm.trans hb'
    have hread : ∀ st, env.read st (env.key i) = env.row st (env.key i) := fun st => by
      rw [read, if_neg hkey, getOpaqueCheckpoint_eq rfl]
      rfl
    have hafter := ((put_spec hput).get? (env.tenant, env.threadId, env.key i)).trans (if_pos rfl)
    rw [pendingWrites, pendingWrites, hread, hread, hc, row, hafter, Option.bind_some,
      Option.bind_some, env.codec.decode_encode, hb]
    simp [tupleFromBlob, SaverOp.entries]

end SaverEnv

/-- A task that runs again writes its pending writes a second time. -/
theorem writes_repeated :
    let st := Trace.run crashedEnv.step
      [.get 0 .answered, .put 0 .answered "now", .get 1 .answered] .init
    crashedEnv.calls 1 = crashedEnv.calls 0 ∧ 0 ∈ st.committed ∧
      crashedEnv.pendingWrites st "2" = some pendingShell.writes ∧
      crashedEnv.pendingWrites (crashedEnv.step (.put 1 .answered "now") st) "2" =
        some (pendingShell.writes ++ pendingShell.writes) := by
  intro st
  have hdecode : ∀ b, crashedEnv.codec.decode (encodeBlob b) = some b := serialCodec.decode_encode
  have hread : crashedEnv.read st "2" =
      some ⟨"acme", "thread", "2", "langgraph", encodeBlob pendingShell, 1, "now"⟩ := by
    decide +kernel
  have hphase : st.phase 1 = .put 0 (some (1, encodeBlob pendingShell)) := by decide +kernel
  let twice := { pendingShell with writes := pendingShell.writes ++ pendingShell.writes }
  have hblob : (crashedEnv.calls 1).op.blob crashedEnv.codec (some (encodeBlob pendingShell)) =
      some twice := by
    change (crashedEnv.codec.decode _).map _ = _
    rw [hdecode]
    rfl
  have hread' : crashedEnv.read (crashedEnv.step (.put 1 .answered "now") st) "2" =
      some ⟨"acme", "thread", "2", "langgraph", encodeBlob twice, 2, "now"⟩ := by
    simp only [SaverEnv.step, hphase, Option.map_some, hblob]
    decide +kernel
  refine ⟨rfl, by decide +kernel, ?_, ?_⟩
  · rw [SaverEnv.pendingWrites, hread, Option.bind_some, hdecode]
    rfl
  · rw [SaverEnv.pendingWrites, hread', Option.bind_some, hdecode]
    rfl

end Runkite
