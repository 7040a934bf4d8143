import Runkite.OpaqueCheckpoints

/-!
# Retention and the checkpoint to resume from

The retention of `PruneOpaqueCheckpoints` goes by the time of the last write, over all the
namespaces of a thread, and a run resumes from the checkpoint of its namespace with the greatest id.
The two orders need not agree : the writes of one namespace push the latest checkpoint of another
out of the rows that are kept.

`latest_kept_iff` says when a prune spares the latest checkpoint of a namespace.
-/

namespace Runkite

namespace OpaqueTable

theorem nodup_rows (t : OpaqueTable) : t.rows.Nodup := t.nodup.of_map

/-- The number of other checkpoints of the tenant and thread, of any namespace, that were written
when `c` was or later. -/
def writtenSince (t : OpaqueTable) (c : OpaqueCheckpoint) : ℕ :=
  Ranking.rivals OpaqueCheckpoint.createdAt c (t.partition c)

variable {c : OpaqueCheckpoint} {t : OpaqueTable}

theorem mem_partition_self (h : c ∈ t.rows) : c ∈ t.partition c := by simp [partition, h]

/-- A row is spared by a prune, however the rows are numbered, iff fewer rows than are kept were
written since. -/
theorem forall_mem_prune_iff {ctx : Ctx} {keepLast : ℤ} (hkeep : 1 ≤ keepLast) (hc : c ∈ t.rows) :
    (∀ order, c ∈ (t.prune ctx keepLast order).rows) ↔
      (ctx.sees c.tenantId → (t.writtenSince c : ℤ) < keepLast) := by
  have hnodup : (t.partition c).Nodup := t.nodup_rows.filter _
  have hbeyond : (∃ order : Ranking OpaqueCheckpoint.createdAt,
      c ∈ order.beyond keepLast.toNat (t.partition c)) ↔ keepLast.toNat ≤ t.writtenSince c :=
    Ranking.exists_mem_beyond_iff hnodup (mem_partition_self hc)
  simp only [mem_prune hkeep, hc, true_and]
  constructor
  · intro hkept hsees
    by_contra hge
    obtain ⟨order, hout⟩ := hbeyond.2 (by omega)
    exact hkept order hsees hout
  · intro hfew order hsees hout
    have hrivals := hbeyond.1 ⟨order, hout⟩
    have := hfew hsees
    omega

theorem latest_kept_iff (ops : List Op) (ctx pruner : Ctx) (threadId ns : String) (keepLast : ℤ)
    (c : OpaqueCheckpoint) (hkeep : 1 ≤ keepLast)
    (hlatest : (Trace.run step ops Table.empty).getLatestOpaqueCheckpoint ctx threadId ns = some c) :
    (∀ order, c ∈ ((Trace.run step ops Table.empty).prune pruner keepLast order).rows) ↔
      (pruner.sees c.tenantId →
        ((Trace.run step ops Table.empty).writtenSince c : ℤ) < keepLast) :=
  forall_mem_prune_iff hkeep (List.mem_of_mem_filter (greatest_eq_some hlatest).1)

/-! ## A subgraph that writes after the root -/

/-- The root graph writes a checkpoint, and then a subgraph writes one of its own. -/
def subgraphAfterRoot : List Op :=
  [.put ⟨"acme", false⟩ "thread" "2" [] "langgraph" none "2026-01-01T00:00:01.000000000Z",
    .put ⟨"acme", false⟩ "thread" "sub\x1f1" [] "langgraph" none "2026-01-01T00:00:02.000000000Z"]

def rootCheckpoint : OpaqueCheckpoint :=
  ⟨"acme", "thread", "2", "langgraph", [], 1, "2026-01-01T00:00:01.000000000Z"⟩

theorem latest_kept_of_two :
    (Trace.run step subgraphAfterRoot Table.empty).getLatestOpaqueCheckpoint ⟨"acme", false⟩
      "thread" "" = some rootCheckpoint ∧
    ∀ order, rootCheckpoint ∈
      ((Trace.run step subgraphAfterRoot Table.empty).prune ⟨"", true⟩ 2 order).rows :=
  ⟨by decide +kernel, (latest_kept_iff subgraphAfterRoot ⟨"acme", false⟩ ⟨"", true⟩ "thread" "" 2
    rootCheckpoint (by decide) (by decide +kernel)).2 (by decide +kernel)⟩

theorem subgraph_evicts_root :
    (Trace.run step subgraphAfterRoot Table.empty).getLatestOpaqueCheckpoint ⟨"acme", false⟩
      "thread" "" = some rootCheckpoint ∧
    rootCheckpoint ∉
      ((Trace.run step subgraphAfterRoot Table.empty).prune ⟨"", true⟩ 1 .stable).rows := by
  decide +kernel

end OpaqueTable

end Runkite
