import Mathlib.Data.List.AList
import Mathlib.Data.String.Basic

/-!
# A key-value bucket with revisions

Every write of a bucket gets a revision of its own, and an `update` or a `delete` may ask that
the key still has the revision its caller read. `Saw` is what such a caller can rely on : the
value it read is the one under that revision, whatever was written since (`Saw.put`,
`Saw.of_delete`), so that a write that succeeds replaces the value that was read
(`Saw.get?_of_isAt`).
-/

/-- Values under keys, each with the revision of its write. -/
structure Bucket (α : Type) where
  entries : AList fun _ : String => α × ℕ
  next : ℕ
  fresh : ∀ k v rev, entries.lookup k = some (v, rev) → rev < next

namespace Bucket

variable {α : Type} {b b' : Bucket α} {k k' : String} {v v' : α} {rev rev' : ℕ}

def empty : Bucket α := ⟨∅, 0, by simp⟩

instance : Inhabited (Bucket α) := ⟨empty⟩

def get? (b : Bucket α) (k : String) : Option (α × ℕ) := b.entries.lookup k

def keys (b : Bucket α) : List String := b.entries.keys

/-- Write a value, whatever is there. -/
def put (b : Bucket α) (k : String) (v : α) : Bucket α where
  entries := b.entries.insert k (v, b.next)
  next := b.next + 1
  fresh k' v' rev' h := by
    by_cases hk : k' = k
    · subst hk
      obtain ⟨-, rfl⟩ : v = v' ∧ b.next = rev' := by simpa using h
      exact Nat.lt_succ_self _
    · rw [AList.lookup_insert_ne hk] at h
      exact Nat.lt_succ_of_lt (b.fresh k' v' rev' h)

def isAt (b : Bucket α) (k : String) (rev : ℕ) : Bool := (b.get? k).any fun e => e.2 = rev

/-- Replace the value of a key, if it still has the revision. -/
def update (b : Bucket α) (k : String) (v : α) (rev : ℕ) : Option (Bucket α) :=
  if b.isAt k rev then some (b.put k v) else none

/-- Remove a key, if it still has the revision. -/
def delete (b : Bucket α) (k : String) (rev : ℕ) : Option (Bucket α) :=
  if b.isAt k rev then some
    { entries := b.entries.erase k
      next := b.next + 1
      fresh := fun k' v' rev' h => by
        by_cases hk : k' = k
        · subst hk
          simp at h
        · rw [AList.lookup_erase_ne hk] at h
          exact Nat.lt_succ_of_lt (b.fresh k' v' rev' h) }
  else none

theorem get?_put (b : Bucket α) (k k' : String) (v : α) :
    (b.put k v).get? k' = if k' = k then some (v, b.next) else b.get? k' := by
  by_cases hk : k' = k
  · subst hk
    simp [put, get?]
  · simp [put, get?, hk, AList.lookup_insert_ne hk]

theorem isAt_iff : b.isAt k rev ↔ ∃ v, b.get? k = some (v, rev) := by
  unfold isAt
  cases h : b.get? k with
  | none => simp
  | some => simp [Prod.ext_iff]

theorem update_eq_some (h : b.update k v rev = some b') : b' = b.put k v ∧ b.isAt k rev := by
  unfold update at h
  split_ifs at h with hat
  exact ⟨(Option.some.inj h).symm, hat⟩

theorem get?_of_delete (h : b.delete k rev = some b') (k' : String) :
    b'.get? k' = if k' = k then none else b.get? k' := by
  unfold delete at h
  split_ifs at h
  cases h
  by_cases hk : k' = k
  · subst hk
    simp [get?]
  · simp [get?, hk, AList.lookup_erase_ne hk]

theorem delete_of_isAt (h : b.isAt k rev) : ∃ b', b.delete k rev = some b' := by simp [delete, h]

/-! ## What a reader knows -/

/-- The value is the one that was written under the revision. -/
def Saw (b : Bucket α) (k : String) (v : α) (rev : ℕ) : Prop :=
  rev < b.next ∧ ∀ v', b.get? k = some (v', rev) → v' = v

theorem saw_of_get? (h : b.get? k = some (v, rev)) : b.Saw k v rev := by
  refine ⟨b.fresh k v rev h, fun v' h' => ?_⟩
  rw [h] at h'
  exact (Prod.mk.inj (Option.some.inj h')).1.symm

theorem Saw.put (h : b.Saw k v rev) : (b.put k' v').Saw k v rev := by
  refine ⟨Nat.lt_succ_of_lt h.1, fun w hw => ?_⟩
  rw [get?_put] at hw
  split_ifs at hw with hk
  · obtain ⟨-, hrev⟩ := Prod.mk.inj (Option.some.inj hw)
    exact absurd h.1 (hrev ▸ lt_irrefl _)
  · exact h.2 w hw

theorem Saw.of_delete (h : b.Saw k v rev) (hdelete : b.delete k' rev' = some b') :
    b'.Saw k v rev := by
  have hnext : b'.next = b.next + 1 := by
    unfold delete at hdelete
    split_ifs at hdelete
    cases hdelete
    rfl
  refine ⟨hnext ▸ Nat.lt_succ_of_lt h.1, fun w hw => ?_⟩
  rw [get?_of_delete hdelete] at hw
  split_ifs at hw
  exact h.2 w hw

/-- If the key still has the revision that was read, it has the value that was read. -/
theorem Saw.get?_of_isAt (h : b.Saw k v rev) (hat : b.isAt k rev) :
    b.get? k = some (v, rev) := by
  obtain ⟨w, hw⟩ := isAt_iff.1 hat
  rw [hw, h.2 w hw]

end Bucket
