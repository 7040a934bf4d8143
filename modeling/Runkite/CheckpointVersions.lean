import Runkite.OpaqueCheckpoints

/-!
# Conditional puts

A writer reads a checkpoint, and puts with `If-Match` the version that it read. The version is a
column of the row, so it goes when the row is deleted or pruned, and a row that is created anew has
version 1 again.

`ifMatch_iff` says when a conditional put that succeeds has overlooked no write of its key.
-/

namespace Runkite

open Table

namespace OpaqueTable

/-! ## What a step does to one key -/

/-- The write puts under the key, and succeeds. -/
def Op.puts (k : String × String × String) (t : OpaqueTable) : Op → Bool
  | .put ctx threadId checkpointId data framework ifMatch now =>
    (ctx.tenant, threadId, checkpointId) = k &&
      (t.put ctx threadId checkpointId data framework ifMatch now).isOk
  | .delete .. | .prune .. => false

def Op.removes (k : String × String × String) (t : OpaqueTable) (op : Op) : Bool :=
  (Table.get? t k).isSome && (Table.get? (step op t) k).isNone

def Op.commits (k : String × String × String) (t : OpaqueTable) (op : Op) : Bool :=
  op.puts k t || op.removes k t

section

variable (k : String × String × String) (op : Op) (t : OpaqueTable)

/-- A put of the key leaves a row of the next version, any other write the row or none. -/
theorem get?_step : (op.puts k t ∧ ∃ c, get? (step op t) k = some c ∧
      c.version = (get? t k).elim 1 fun c => c.version + 1) ∨
    op.puts k t = false ∧
      (get? (step op t) k = get? t k ∨ get? (step op t) k = none) := by
  cases op with
  | put ctx threadId checkpointId data framework ifMatch now =>
    cases hput : t.put ctx threadId checkpointId data framework ifMatch now with
    | error => exact .inr (by simp [Op.puts, step, hput, Except.isOk, Except.toBool])
    | ok res =>
      obtain ⟨_, t'⟩ := res
      have spec := put_spec hput
      have hstep : step (.put ctx threadId checkpointId data framework ifMatch now) t = t' := by
        simp [step, hput]
      rw [hstep, spec.get?]
      by_cases hk : k = (ctx.tenant, threadId, checkpointId)
      · refine .inl ⟨by simp [Op.puts, hk, hput, Except.isOk, Except.toBool], _, if_pos hk, ?_⟩
        rw [hk]
        exact spec.bumped
      · exact .inr ⟨by simp [Op.puts, Ne.symm hk], .inl (if_neg hk)⟩
  | delete ctx threadId checkpointId =>
    refine .inr ⟨rfl, ?_⟩
    simp only [step, deleteOpaqueCheckpoint]
    by_cases hany : t.rows.any fun c =>
        c.threadId = threadId && c.checkpointId = checkpointId && ctx.sees c.tenantId
    · rw [if_pos hany]
      exact get?_delete_cases _ t k
    · rw [if_neg hany]
      exact .inl rfl
  | prune =>
    refine .inr ⟨rfl, ?_⟩
    simp only [step, OpaqueTable.prune]
    split_ifs
    · exact .inl rfl
    · exact get?_delete_cases _ t k

/-! ## Versions -/

/-- Versions start at 1. -/
theorem version_pos_step (ih : ∀ c, get? t k = some c → 1 ≤ c.version) :
    ∀ c, get? (step op t) k = some c → 1 ≤ c.version := by
  intro c hc
  rcases get?_step k op t with ⟨-, _, hc', hversion⟩ | ⟨-, hsame | hnone⟩
  · cases hc.symm.trans hc'
    cases hget : get? t k with
    | none => simp [hversion, hget]
    | some c₀ =>
      have := ih c₀ hget
      rw [hversion, hget, Option.elim_some]
      omega
  · exact ih c (hsame ▸ hc)
  · rw [hnone] at hc
    cases hc

end

/-- While the row of a key is not removed its version grows with each put, and so it is the one that
was read only as long as nothing commits. -/
theorem version_grows (k : String × String × String) : ∀ (ops : List Op) (t : OpaqueTable)
    (c c' : OpaqueCheckpoint), get? t k = some c →
      get? (Trace.run step ops t) k = some c' →
      Trace.Every step (fun op t => op.removes k t = false) ops t →
      c.version ≤ c'.version ∧
        (c'.version = c.version → Trace.Every step (fun op t => op.commits k t = false) ops t)
  | [], t, c, c', hc, hc', _ => by
    cases hc.symm.trans hc'
    exact ⟨le_rfl, fun _ => trivial⟩
  | op :: ops, t, c, c', hc, hc', hkept => by
    obtain ⟨hop, hops⟩ := hkept
    rcases get?_step k op t with ⟨-, c₁, hc₁, hversion⟩ | ⟨hputs, hsame | hnone⟩
    · have ih := version_grows k ops (step op t) c₁ c' hc₁ hc' hops
      rw [hc, Option.elim_some] at hversion
      exact ⟨by omega, fun heq => by omega⟩
    · have ih := version_grows k ops (step op t) c c' (hsame.trans hc) hc' hops
      refine ⟨ih.1, fun heq => ⟨?_, ih.2 heq⟩⟩
      simp [Op.commits, hputs, hop]
    · simp [Op.removes, hc, hnone] at hop

/-- A conditional put that succeeds, of the version that was read before `mid` : no write of the key
committed in between iff none removed the row. -/
theorem ifMatch_iff (pre mid : List Op) (tenant threadId checkpointId framework now : String)
    (data : List UInt8) (c : OpaqueCheckpoint)
    (hread : (Trace.run step pre Table.empty).getOpaqueCheckpoint ⟨tenant, false⟩ threadId
      checkpointId = some c)
    (hput : ((Trace.run step (pre ++ mid) Table.empty).put ⟨tenant, false⟩ threadId checkpointId
      data framework (some c.version) now).isOk = true) :
    Trace.Every step (fun op t => op.commits (tenant, threadId, checkpointId) t = false) mid
        (Trace.run step pre Table.empty) ↔
      Trace.Every step (fun op t => op.removes (tenant, threadId, checkpointId) t = false) mid
        (Trace.run step pre Table.empty) := by
  refine ⟨Trace.every_of_imp fun _ _ hop => (Bool.or_eq_false_iff.1 hop).2, fun hkept => ?_⟩
  rw [getOpaqueCheckpoint_eq rfl] at hread
  have hpos : c.version ≠ opaqueCreateOnly := by
    have := Trace.invariant_of_step (version_pos_step _) pre (by nofun) c hread
    unfold opaqueCreateOnly
    omega
  cases hres : (Trace.run step (pre ++ mid) empty).put ⟨tenant, false⟩ threadId checkpointId
      data framework (some c.version) now with
  | error e => simp [hres, Except.isOk, Except.toBool] at hput
  | ok res =>
    obtain ⟨c', hc', hversion⟩ := (put_spec hres).current c.version rfl hpos
    rw [Trace.run_append] at hc'
    exact (version_grows _ mid _ c c' hread hc' hkept).2 hversion

/-! ## A row that is created anew -/

/-- A put of the bytes `data` under one key, at a time that does not matter. -/
def putBlob (data : List UInt8) (ifMatch : Option ℤ) (checkpointId : String := "1") : Op :=
  .put ⟨"acme", false⟩ "thread" checkpointId data "langgraph" ifMatch "2026-01-01T00:00:00.000000000Z"

def firstBlob : OpaqueCheckpoint :=
  ⟨"acme", "thread", "1", "langgraph", [1], 1, "2026-01-01T00:00:00.000000000Z"⟩

/-- Writes of another key in between, and nothing is overlooked. -/
theorem ifMatch_after_other :
    Trace.Every step (fun op t => op.commits ("acme", "thread", "1") t = false)
      [putBlob [2] none "2", .delete ⟨"acme", false⟩ "thread" "2"]
      (Trace.run step [putBlob [1] none] Table.empty) :=
  have hread : (Trace.run step [putBlob [1] none] empty).getOpaqueCheckpoint ⟨"acme", false⟩
      "thread" "1" = some firstBlob := by decide +kernel
  (ifMatch_iff [putBlob [1] none] _ "acme" "thread" "1" "langgraph" "now" [3] firstBlob hread
    (by decide +kernel)).2 (by decide +kernel)

/-- A delete and a create-only put come between the read and the conditional put. -/
theorem recreated_overlooked :
    (Trace.run step [putBlob [1] none] Table.empty).getOpaqueCheckpoint ⟨"acme", false⟩ "thread" "1" =
      some firstBlob ∧
    ((Trace.run step ([putBlob [1] none] ++ [.delete ⟨"acme", false⟩ "thread" "1",
      putBlob [2] (some opaqueCreateOnly)]) Table.empty).put ⟨"acme", false⟩ "thread" "1" [3]
      "langgraph" (some firstBlob.version) "now").isOk = true ∧
    ¬ Trace.Every step (fun op t => op.commits ("acme", "thread", "1") t = false)
      [.delete ⟨"acme", false⟩ "thread" "1", putBlob [2] (some opaqueCreateOnly)]
      (Trace.run step [putBlob [1] none] Table.empty) := by decide +kernel

end OpaqueTable

end Runkite
