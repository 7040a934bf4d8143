import Runkite.Ranking
import Runkite.Store
import Runkite.Strings
import Runkite.Trace

/-!
# Opaque checkpoints

The blobs that a runner keeps in the state store, one row for each checkpoint id of a thread. A put
is unconditional, create-only or conditional on the version of the row; it sets the time of writing
whether the row is new or not. The latest checkpoint of a namespace is the one with the greatest id,
and the namespaces are prefixes of the ids, which SQLite matches with `LIKE`. A prune keeps the
rows of a thread that were written last, whatever their namespaces.
-/

namespace Runkite

open Table

/-! ## Rows -/

structure OpaqueCheckpoint where
  tenantId : String
  threadId : String
  checkpointId : String
  framework : String
  data : List UInt8
  version : ℤ
  /-- The time of the last put, with a fixed number of digits. -/
  createdAt : String
deriving DecidableEq

/-- The primary key : tenant, thread and checkpoint. -/
def OpaqueCheckpoint.key (c : OpaqueCheckpoint) : String × String × String :=
  (c.tenantId, c.threadId, c.checkpointId)

open OpaqueCheckpoint

/-- What a put makes of a row that is there. -/
def OpaqueCheckpoint.rewrite (framework : String) (data : List UInt8) (now : String)
    (c : OpaqueCheckpoint) : OpaqueCheckpoint :=
  { c with framework := framework, data := data, createdAt := now, version := c.version + 1 }

@[simp] theorem OpaqueCheckpoint.key_rewrite (framework : String) (data : List UInt8) (now : String)
    (c : OpaqueCheckpoint) : (c.rewrite framework data now).key = c.key := rfl

abbrev OpaqueTable := Table OpaqueCheckpoint (String × String × String) OpaqueCheckpoint.key

def maxOpaqueCheckpointBytes : ℕ := 16 * 2 ^ 20

/-- The `ifMatch` of a put that only creates. -/
def opaqueCreateOnly : ℤ := 0

/-! ## Namespaces -/

/-- What is between the namespace and the id proper in a checkpoint id. -/
def nsSep : Char := Char.ofNat 0x1f

/-- `text LIKE pattern` : letters match in either case, `%` any text and `_` any character. -/
def sqlLike : List Char → List Char → Bool
  | [], text => text.isEmpty
  | a :: pattern, text =>
    if a = '%' then text.tails.any (sqlLike pattern)
    else
      match text with
      | [] => false
      | c :: text => (a = '_' || a.toLower = c.toLower) && sqlLike pattern text

/-- The rows that `GetLatestOpaqueCheckpoint` looks at. -/
def inNamespace (ns checkpointId : String) : Bool :=
  if ns = "" then nsSep ∉ checkpointId.toList
  else sqlLike (ns.toList ++ [nsSep, '%']) checkpointId.toList

namespace OpaqueTable

/-! ## Reads -/

def getOpaqueCheckpoint (ctx : Ctx) (threadId checkpointId : String) (t : OpaqueTable) :
    Option OpaqueCheckpoint :=
  t.select fun c => c.threadId = threadId && c.checkpointId = checkpointId && ctx.sees c.tenantId

/-- The first of the rows with the greatest id. -/
def greatest (rows : List OpaqueCheckpoint) : Option OpaqueCheckpoint :=
  rows.foldr (fun c best =>
    match best with
    | none => some c
    | some b => if c.checkpointId < b.checkpointId then some b else some c) none

def getLatestOpaqueCheckpoint (ctx : Ctx) (threadId ns : String) (t : OpaqueTable) :
    Option OpaqueCheckpoint :=
  greatest (t.rows.filter fun c =>
    c.threadId = threadId && inNamespace ns c.checkpointId && ctx.sees c.tenantId)

/-! ## Writes -/

/-- `putOpaqueCheckpoint`, with the version that it returns. -/
def put (ctx : Ctx) (threadId checkpointId : String) (data : List UInt8) (framework : String)
    (ifMatch : Option ℤ) (now : String) (t : OpaqueTable) : Except StoreError (ℤ × OpaqueTable) :=
  let size := data.length
  let limit := maxOpaqueCheckpointBytes
  let key := (ctx.tenant, threadId, checkpointId)
  let row : OpaqueCheckpoint := ⟨ctx.tenant, threadId, checkpointId, framework, data, 1, now⟩
  if limit < size then
    .error (.message s!"opaque checkpoint exceeds max size ({size} > {limit} bytes)")
  else
    match ifMatch with
    | none =>
      .ok ((t.get? key).elim 1 fun c => c.version + 1,
        t.upsert row (.rewrite framework data now) (OpaqueCheckpoint.key_rewrite framework data now))
    | some v =>
      if v = opaqueCreateOnly then
        match t.insert row with
        | some t => .ok (1, t)
        | none => .error (.conflict "opaque_checkpoint" checkpointId "already exists")
      else if (t.get? key).any fun c => c.version = v then
        .ok (v + 1, t.update (fun c => c.key = key && c.version = v) (.rewrite framework data now)
          (OpaqueCheckpoint.key_rewrite framework data now))
      else .error (.conflict "opaque_checkpoint" checkpointId "version mismatch")

def deleteOpaqueCheckpoint (ctx : Ctx) (threadId checkpointId : String) (t : OpaqueTable) :
    Except StoreError OpaqueTable :=
  let p : OpaqueCheckpoint → Bool := fun c =>
    c.threadId = threadId && c.checkpointId = checkpointId && ctx.sees c.tenantId
  if t.rows.any p then .ok (t.delete p)
  else .error (.notFound "opaque_checkpoint" checkpointId)

/-- The rows of the tenant and thread of a row. -/
def partition (t : OpaqueTable) (c : OpaqueCheckpoint) : List OpaqueCheckpoint :=
  t.rows.filter fun c' => c'.tenantId = c.tenantId && c'.threadId = c.threadId

/-- `PruneOpaqueCheckpoints`. The order of rows that were written at the same time is not
specified, so it is an argument. -/
def prune (ctx : Ctx) (keepLast : ℤ) (order : Ranking OpaqueCheckpoint.createdAt)
    (t : OpaqueTable) : OpaqueTable :=
  if keepLast ≤ 0 then t
  else t.delete fun c =>
    ctx.sees c.tenantId && c ∈ order.beyond keepLast.toNat (t.partition c)

/-! ## What is read -/

variable {c : OpaqueCheckpoint} {t : OpaqueTable} {ctx : Ctx}

theorem getOpaqueCheckpoint_eq (hctx : ctx.system = false) (threadId checkpointId : String)
    (t : OpaqueTable) : t.getOpaqueCheckpoint ctx threadId checkpointId =
      get? t (ctx.tenant, threadId, checkpointId) := by
  unfold getOpaqueCheckpoint get?
  congr 1
  funext c
  rw [Bool.eq_iff_iff]
  simp only [Ctx.sees, hctx, key, Bool.false_or, Bool.and_eq_true,
    decide_eq_true_eq, Prod.mk.injEq]
  tauto

theorem greatest_cons (c : OpaqueCheckpoint) (rows : List OpaqueCheckpoint) :
    greatest (c :: rows) = some ((greatest rows).elim c fun b =>
      if c.checkpointId < b.checkpointId then b else c) := by
  change (match greatest rows with
    | none => some c
    | some b => if c.checkpointId < b.checkpointId then some b else some c) = _
  cases greatest rows with
  | none => rfl
  | some b => exact (apply_ite some _ b c).symm

theorem greatest_eq_none_iff {rows : List OpaqueCheckpoint} : greatest rows = none ↔ rows = [] := by
  cases rows with
  | nil => simp [greatest]
  | cons => simp [greatest_cons]

/-- The latest checkpoint is a row with the greatest id. -/
theorem greatest_eq_some {c : OpaqueCheckpoint} : ∀ {rows : List OpaqueCheckpoint},
    greatest rows = some c → c ∈ rows ∧ ∀ c' ∈ rows, c'.checkpointId ≤ c.checkpointId
  | c₀ :: rows, h => by
    rw [greatest_cons, Option.some.injEq] at h
    cases hbest : greatest rows with
    | none =>
      obtain rfl := greatest_eq_none_iff.1 hbest
      rw [hbest] at h
      subst h
      simp
    | some =>
      obtain ⟨hb, hle⟩ := greatest_eq_some hbest
      rw [hbest, Option.elim_some] at h
      split_ifs at h with hlt
      · subst h
        exact ⟨List.mem_cons_of_mem c₀ hb, List.forall_mem_cons.2 ⟨le_of_lt hlt, hle⟩⟩
      · subst h
        exact ⟨List.mem_cons_self, List.forall_mem_cons.2
          ⟨le_rfl, fun c' hc' => (hle c' hc').trans (not_lt.1 hlt)⟩⟩

/-! ## What a prune does -/

theorem mem_prune {keepLast : ℤ} {order : Ranking createdAt}
    (hkeep : 1 ≤ keepLast) : c ∈ (t.prune ctx keepLast order).rows ↔ c ∈ t.rows ∧
      (ctx.sees c.tenantId → c ∉ order.beyond keepLast.toNat (t.partition c)) := by
  rw [prune, if_neg (by omega)]
  cases hsees : ctx.sees c.tenantId <;> simp [delete, List.mem_filter, hsees]

theorem get?_delete_cases (p : OpaqueCheckpoint → Bool) (t : OpaqueTable)
    (k : String × String × String) :
    get? (t.delete p) k = get? t k ∨ get? (t.delete p) k = none := by
  rw [get?_delete]
  cases h : (get? t k).filter fun c => !p c with
  | none => exact .inr rfl
  | some => exact .inl (Option.filter_eq_some_iff.1 h).1.symm

/-! ## What a put does -/

variable {ctx : Ctx} {threadId checkpointId framework now : String} {data : List UInt8}
  {ifMatch : Option ℤ} {t t' : OpaqueTable} {version : ℤ}

/-- What a put that succeeds found, and what it leaves. -/
structure PutSpec (ctx : Ctx) (threadId checkpointId : String) (data : List UInt8)
    (framework : String) (ifMatch : Option ℤ) (now : String) (t : OpaqueTable) (version : ℤ)
    (t' : OpaqueTable) : Prop where
  absent : ifMatch = some opaqueCreateOnly → t.get? (ctx.tenant, threadId, checkpointId) = none
  current : ∀ v, ifMatch = some v → v ≠ opaqueCreateOnly →
    ∃ c, t.get? (ctx.tenant, threadId, checkpointId) = some c ∧ c.version = v
  bumped : version = (t.get? (ctx.tenant, threadId, checkpointId)).elim 1 fun c => c.version + 1
  get? : ∀ k, t'.get? k = if k = (ctx.tenant, threadId, checkpointId) then
    some ⟨ctx.tenant, threadId, checkpointId, framework, data, version, now⟩ else t.get? k

/-- A row that is rewritten keeps the key it is looked up under. -/
theorem rewrite_of_get? {c : OpaqueCheckpoint}
    (h : get? t (ctx.tenant, threadId, checkpointId) = some c) :
    c.rewrite framework data now =
      ⟨ctx.tenant, threadId, checkpointId, framework, data, c.version + 1, now⟩ := by
  have hkey := key_of_get? h
  simp only [key, Prod.mk.injEq] at hkey
  simp [rewrite, hkey]

theorem put_spec
    (h : t.put ctx threadId checkpointId data framework ifMatch now = .ok (version, t')) :
    PutSpec ctx threadId checkpointId data framework ifMatch now t version t' := by
  unfold put at h
  dsimp only at h
  split_ifs at h with hsize
  split at h
  · -- unconditional
    obtain ⟨rfl, rfl⟩ := Prod.mk.inj (Except.ok.inj h)
    refine ⟨fun h => (by cases h), fun _ h => (by cases h), rfl, fun k => ?_⟩
    rw [get?_upsert]
    by_cases hk : k = (ctx.tenant, threadId, checkpointId)
    · subst hk
      cases hget : get? t (ctx.tenant, threadId, checkpointId) with
      | none => simp [key]
      | some => simpa [key] using rewrite_of_get? hget
    · simp [key, hk]
  · rename_i v
    by_cases hv : v = opaqueCreateOnly
    · -- create-only
      rw [if_pos hv] at h
      split at h
      · rename_i t₁ hins
        obtain ⟨rfl, rfl⟩ := Prod.mk.inj (Except.ok.inj h)
        have habsent := (rows_of_insert hins).1
        refine ⟨fun _ => habsent, fun v' hv' hne => ?_, ?_, get?_of_insert hins⟩
        · exact absurd ((Option.some.inj hv').symm.trans hv) hne
        · exact (congrArg (Option.elim · 1 fun c => c.version + 1) habsent).symm
      · cases h
    · -- conditional : the row of that version is rewritten
      rw [if_neg hv] at h
      split_ifs at h with hany
      obtain ⟨rfl, rfl⟩ := Prod.mk.inj (Except.ok.inj h)
      obtain ⟨c, hget, hc⟩ := (Option.any_eq_true _ _).1 hany
      obtain rfl := of_decide_eq_true hc
      refine ⟨fun he => absurd (Option.some.inj he) hv, fun v' hv' _ => ⟨c, hget, ?_⟩, ?_,
        fun k => ?_⟩
      · exact Option.some.inj hv'
      · rw [hget]; rfl
      · rw [get?_update]
        by_cases hk : k = (ctx.tenant, threadId, checkpointId)
        · subst hk
          simp [hget, key_of_get? hget, rewrite_of_get? hget]
        · rw [if_neg hk]
          cases hget' : get? t k with
          | none => rfl
          | some => simp [key_of_get? hget', hk]

/-! ## Histories -/

/-- A write of the table. -/
inductive Op where
  | put (ctx : Ctx) (threadId checkpointId : String) (data : List UInt8) (framework : String)
      (ifMatch : Option ℤ) (now : String)
  | delete (ctx : Ctx) (threadId checkpointId : String)
  | prune (ctx : Ctx) (keepLast : ℤ) (order : Ranking OpaqueCheckpoint.createdAt)

/-- The table after a write; one that fails leaves it as it is. -/
def step : Op → OpaqueTable → OpaqueTable
  | .put ctx threadId checkpointId data framework ifMatch now, t =>
    match t.put ctx threadId checkpointId data framework ifMatch now with
    | .ok (_, t') => t'
    | .error _ => t
  | .delete ctx threadId checkpointId, t =>
    match t.deleteOpaqueCheckpoint ctx threadId checkpointId with
    | .ok t' => t'
    | .error _ => t
  | .prune ctx keepLast order, t => t.prune ctx keepLast order

end OpaqueTable

end Runkite
