import Mathlib.Data.List.Sort
import Mathlib.Data.Prod.Lex

/-!
# Row numbers

`ROW_NUMBER() OVER (ORDER BY col DESC)` : the rows are numbered in decreasing order of a column, and
rows with the same value are numbered in an order that is not specified. A `Ranking` is one way to
number them, and `Ranking.beyond n` the rows whose number is greater than `n`.
-/

namespace Runkite

/-- A way to number rows in decreasing order of a column. -/
structure Ranking {α κ : Type} [LE κ] (col : α → κ) where
  sort : List α → List α
  perm : ∀ rows, (sort rows).Perm rows
  sorted : ∀ rows, (sort rows).Pairwise fun a b => col b ≤ col a

namespace Ranking

variable {α κ μ : Type} [LinearOrder κ] [LinearOrder μ] {col : α → κ}

theorem pairwise_sort_key (key : α → μ) (rows : List α) :
    (rows.insertionSort fun a b => key a ≤ key b).Pairwise fun a b => key a ≤ key b := by
  have : Std.Total fun a b => key a ≤ key b := ⟨fun a b => le_total (key a) (key b)⟩
  have : IsTrans α fun a b => key a ≤ key b := ⟨fun _ _ _ => le_trans⟩
  exact List.pairwise_insertionSort _ rows

/-- Rows numbered by a key that refines the column. -/
def ofKey (key : α → μ) (hkey : ∀ a b, key a ≤ key b → col b ≤ col a) : Ranking col where
  sort := List.insertionSort fun a b => key a ≤ key b
  perm := List.perm_insertionSort _
  sorted rows := (pairwise_sort_key key rows).imp (hkey _ _)

/-- Rows with the same value stay in the order they are in. -/
def stable : Ranking col :=
  ofKey (fun a => OrderDual.toDual (col a)) fun _ _ h => h

/-- The column, and within one value whether a row is `r`. -/
def lastKey [DecidableEq α] (col : α → κ) (r a : α) : κᵒᵈ ×ₗ Bool :=
  toLex (OrderDual.toDual (col a), decide (a = r))

theorem lastKey_le_iff [DecidableEq α] {r a b : α} :
    lastKey col r a ≤ lastKey col r b ↔ col b < col a ∨ col a = col b ∧ (a = r → b = r) := by
  by_cases ha : a = r <;> by_cases hb : b = r <;> simp [lastKey, Prod.Lex.le_iff, ha, hb]

/-- A row comes after the others with its value. -/
def last [DecidableEq α] (r : α) : Ranking col :=
  ofKey (lastKey col r) fun _ _ h => (lastKey_le_iff.mp h).elim le_of_lt fun h => h.1.ge

/-- The rows whose number is greater than `n`. -/
def beyond (R : Ranking col) (n : ℕ) (rows : List α) : List α := (R.sort rows).drop n

variable [DecidableEq α] {rows : List α} {n : ℕ} {r : α}

/-- The number of other rows with a value as great as that of `r`. -/
def rivals (col : α → κ) (r : α) (rows : List α) : ℕ :=
  rows.countP fun a => a ≠ r ∧ col r ≤ col a

theorem rivals_sort (R : Ranking col) (r : α) (rows : List α) :
    rivals col r (R.sort rows) = rivals col r rows := (R.perm rows).countP_eq _

/-- A row beyond `n` has the first `n` rows for rivals. -/
theorem le_rivals_of_mem_beyond {R : Ranking col}
    (hnodup : rows.Nodup) (h : r ∈ R.beyond n rows) : n ≤ rivals col r rows := by
  have hsorted := R.sorted rows
  have hdisjoint := (R.perm rows).nodup_iff.2 hnodup
  have hn : n ≤ (R.sort rows).length := by
    by_contra hlt
    rw [beyond, List.drop_eq_nil_of_le (by omega)] at h
    cases h
  rw [← List.take_append_drop n (R.sort rows)] at hsorted hdisjoint
  have hfirst : ∀ a ∈ (R.sort rows).take n, a ≠ r ∧ col r ≤ col a := by
    intro a ha
    refine ⟨?_, (List.pairwise_append.1 hsorted).2.2 a ha r h⟩
    rintro rfl
    exact (List.nodup_append.1 hdisjoint).2.2 a ha a h rfl
  calc n = ((R.sort rows).take n).length := by rw [List.length_take]; omega
    _ = rivals col r ((R.sort rows).take n) := by
      refine (List.countP_eq_length.2 fun a ha => ?_).symm
      exact decide_eq_true (hfirst a ha)
    _ ≤ rivals col r (R.sort rows) := (List.take_sublist n _).countP_le
    _ = rivals col r rows := R.rivals_sort r rows

/-- The rivals of a row stand before it when it is numbered last of its value. -/
theorem mem_beyond_last (hr : r ∈ rows)
    (hn : n ≤ rivals col r rows) : r ∈ (last r : Ranking col).beyond n rows := by
  set R : Ranking col := last r
  obtain ⟨before, after, hsplit⟩ := List.append_of_mem ((R.perm rows).mem_iff.2 hr)
  have hafter : rivals col r (r :: after) = 0 := by
    refine List.countP_eq_zero.2 fun a ha hrival => ?_
    obtain ⟨hne, hle⟩ := of_decide_eq_true hrival
    have hmem : a ∈ after := (List.mem_cons.1 ha).resolve_left hne
    have hpair := pairwise_sort_key (lastKey col r) rows
    rw [show rows.insertionSort _ = before ++ r :: after from hsplit] at hpair
    have hkey := (List.pairwise_cons.1 (List.pairwise_append.1 hpair).2.1).1 a hmem
    rcases lastKey_le_iff.1 hkey with hlt | ⟨-, heq⟩
    · exact absurd hle (not_le_of_gt hlt)
    · exact hne (heq rfl)
  have hbefore : n ≤ before.length := by
    rw [← R.rivals_sort, hsplit, rivals, List.countP_append] at hn
    rw [rivals] at hafter
    have := List.countP_le_length (l := before) (p := fun a => decide (a ≠ r ∧ col r ≤ col a))
    omega
  rw [beyond, hsplit, List.drop_append_of_le_length hbefore]
  exact List.mem_append_right _ List.mem_cons_self

theorem exists_mem_beyond_iff (hnodup : rows.Nodup)
    (hr : r ∈ rows) : (∃ R : Ranking col, r ∈ R.beyond n rows) ↔ n ≤ rivals col r rows :=
  ⟨fun ⟨_, h⟩ => le_rivals_of_mem_beyond hnodup h, fun h => ⟨last r, mem_beyond_last hr h⟩⟩

end Ranking

end Runkite
