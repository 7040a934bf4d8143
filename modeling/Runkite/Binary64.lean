import Mathlib.Algebra.Order.Field.Power
import Mathlib.Data.Int.Log
import Mathlib.Data.Rat.Floor
import Mathlib.Tactic.Positivity

/-!
# Binary64 numbers and their decimal form

A finite binary64 number is held as the rational it stands for. `ofRat` rounds a
rational to the nearest one, ties to even, and fails beyond the largest finite number;
`format` is the shortest decimal that rounds back to its argument, as a formatter
without a fixed precision prints it.

`ofRat_of_representable` and `representable_of_ofRat` say that `ofRat` is the identity
on exactly the numbers it produces, so a number that is printed and read again is
unchanged (`ofRat_format`). Integers up to `2 ^ 53` are read exactly
(`ofRat_intCast`) and printed exactly (`toRat_format_intCast`).
-/

namespace Binary64

/-! ## Rounding -/

/-- The nearest integer, ties to even. -/
def roundEven (x : ℚ) : ℤ :=
  if x - ⌊x⌋ < 1 / 2 then ⌊x⌋
  else if 1 / 2 < x - ⌊x⌋ then ⌊x⌋ + 1
  else if ⌊x⌋ % 2 = 0 then ⌊x⌋ else ⌊x⌋ + 1

@[simp] theorem roundEven_intCast (n : ℤ) : roundEven n = n := by simp [roundEven]

variable {x : ℚ}

theorem abs_roundEven_le {b : ℤ} (hx : |x| < b) : |roundEven x| ≤ b := by
  obtain ⟨hlo, hhi⟩ := abs_lt.1 hx
  have hfloor : -b ≤ ⌊x⌋ := Int.le_floor.2 (by push_cast; exact hlo.le)
  have hfloor' : ⌊x⌋ < b := Int.floor_lt.2 hhi
  rw [abs_le]
  unfold roundEven
  split_ifs <;> constructor <;> omega

/-- The exponent of the unit in the last place of the binary64 numbers around `x`. -/
def ulpExp (x : ℚ) : ℤ := max (Int.log 2 |x| - 52) (-1074)

/-- The binary64 number nearest to `x`, or `none` where that is infinite. -/
def ofRat (x : ℚ) : Option ℚ :=
  let r := roundEven (x / 2 ^ ulpExp x) * (2 : ℚ) ^ ulpExp x
  if |r| < 2 ^ 1024 then some r else none

/-- The finite binary64 numbers : at most 53 bits over a unit of at least `2 ^ (-1074)`. -/
def Representable (x : ℚ) : Prop :=
  ∃ s e : ℤ, |s| ≤ 2 ^ 53 ∧ -1074 ≤ e ∧ x = s * (2 : ℚ) ^ e ∧ |x| < 2 ^ 1024

theorem abs_lt_zpow_ulpExp (x : ℚ) : |x| < (2 : ℚ) ^ (ulpExp x + 53) := by
  have h := Int.lt_zpow_succ_log_self (b := 2) (by norm_num) |x|
  refine lt_of_lt_of_le h ?_
  have he : Int.log 2 |x| + 1 ≤ ulpExp x + 53 := by
    have := le_max_left (Int.log 2 |x| - 52) (-1074)
    simp only [ulpExp]
    omega
  exact_mod_cast zpow_le_zpow_right₀ (by norm_num : (1 : ℚ) ≤ 2) he

theorem representable_of_ofRat {x y : ℚ} (h : ofRat x = some y) : Representable y := by
  unfold ofRat at h
  simp only at h
  split_ifs at h with hfin
  cases h
  refine ⟨roundEven (x / 2 ^ ulpExp x), ulpExp x, ?_, le_max_right _ _, rfl, hfin⟩
  refine abs_roundEven_le ?_
  have hpos : (0 : ℚ) < 2 ^ ulpExp x := by positivity
  rw [abs_div, abs_of_pos hpos, div_lt_iff₀ hpos]
  have := abs_lt_zpow_ulpExp x
  rw [zpow_add₀ (by norm_num)] at this
  push_cast
  calc |x| < _ := this
    _ = _ := by rw [mul_comm]; norm_num

/-- A representable number is a whole number of its own units. -/
theorem exists_ulps (h : Representable x) : ∃ n : ℤ, x / 2 ^ ulpExp x = n := by
  obtain ⟨s, e, hs, _, rfl, -⟩ := h
  set x : ℚ := s * (2 : ℚ) ^ e with hx
  by_cases hx0 : x = 0
  · exact ⟨0, by simp [hx0]⟩
  rcases le_or_gt (ulpExp x) e with hle | hlt
  · refine ⟨s * 2 ^ (e - ulpExp x).toNat, ?_⟩
    rw [hx, mul_div_assoc, ← zpow_sub₀ (by norm_num : (2 : ℚ) ≠ 0)]
    have : ((e - ulpExp x).toNat : ℤ) = e - ulpExp x := Int.toNat_of_nonneg (by omega)
    push_cast
    rw [← zpow_natCast, this]
  · -- the unit can only exceed `2 ^ e` when the significand is exactly `2 ^ 53`
    have hlog : e + 53 ≤ Int.log 2 |x| := by
      simp only [ulpExp] at hlt
      omega
    have hge : (2 : ℚ) ^ (e + 53) ≤ |x| := by
      refine le_trans (zpow_le_zpow_right₀ (by norm_num) hlog) ?_
      exact_mod_cast Int.zpow_log_le_self (by norm_num) (abs_pos.2 hx0)
    have habs : |x| = |(s : ℚ)| * 2 ^ e := by
      rw [hx, abs_mul, abs_of_pos (by positivity : (0 : ℚ) < 2 ^ e)]
    have hs' : (2 : ℚ) ^ 53 ≤ |(s : ℚ)| := by
      rw [habs, zpow_add₀ (by norm_num), mul_comm] at hge
      exact_mod_cast le_of_mul_le_mul_right hge (by positivity)
    have hs53 : |s| = 2 ^ 53 := le_antisymm hs (by exact_mod_cast hs')
    have hlog' : Int.log 2 |x| = e + 53 := by
      have hpow : |x| = ((2 : ℕ) : ℚ) ^ (e + 53) := by
        rw [habs, ← Int.cast_abs, hs53, zpow_add₀ (by norm_num), mul_comm]
        norm_num
      rw [hpow]
      exact Int.log_zpow (by norm_num) _
    have hulp : ulpExp x = e + 1 := by
      simp only [ulpExp, hlog'] at hlt ⊢
      omega
    obtain ⟨t, rfl⟩ : (2 : ℤ) ∣ s := by
      rw [← dvd_abs, hs53]
      norm_num
    refine ⟨t, ?_⟩
    rw [hulp, hx, zpow_add₀ (by norm_num)]
    push_cast
    field_simp

theorem ofRat_of_representable (h : Representable x) : ofRat x = some x := by
  obtain ⟨n, hn⟩ := exists_ulps h
  have hpos : (2 : ℚ) ^ ulpExp x ≠ 0 := by positivity
  have hx : (n : ℚ) * 2 ^ ulpExp x = x := by rw [← hn, div_mul_cancel₀ _ hpos]
  obtain ⟨-, -, -, -, -, hfin⟩ := h
  simp [ofRat, hn, roundEven_intCast, hx, if_pos hfin]

theorem representable_intCast {n : ℤ} (h : |n| ≤ 2 ^ 53) : Representable n := by
  refine ⟨n, 0, h, by norm_num, by simp, ?_⟩
  have : |(n : ℚ)| ≤ 2 ^ 53 := by exact_mod_cast h
  exact lt_of_le_of_lt this (pow_lt_pow_right₀ (by norm_num) (by norm_num))

/-- Integers up to `2 ^ 53` are read exactly. -/
theorem ofRat_intCast {n : ℤ} (h : |n| ≤ 2 ^ 53) : ofRat n = some (n : ℚ) :=
  ofRat_of_representable (representable_intCast h)

/-! ## The shortest decimal -/

/-- A decimal number literal : `coefficient * 10 ^ exponent`. -/
structure Decimal where
  coefficient : ℤ
  exponent : ℤ
deriving DecidableEq, Repr

def Decimal.toRat (d : Decimal) : ℚ := d.coefficient * (10 : ℚ) ^ d.exponent

@[simp] theorem Decimal.toRat_intCast (n : ℤ) : (⟨n, 0⟩ : Decimal).toRat = n := by simp [toRat]

/-- The exponent of the last digit when `x` is written with `n` significant digits. -/
def lastDigitExp (x : ℚ) (n : ℕ) : ℤ := Int.log 10 |x| + 1 - n

/-- The two neighbours of `x` with `n` significant digits, the nearer one first. -/
def neighbours (x : ℚ) (n : ℕ) : List Decimal :=
  let y := x / 10 ^ lastDigitExp x n
  let below : Decimal := ⟨⌊y⌋, lastDigitExp x n⟩
  let above : Decimal := ⟨⌊y⌋ + 1, lastDigitExp x n⟩
  if y - ⌊y⌋ ≤ 1 / 2 then [below, above] else [above, below]

/-- The first neighbour that rounds to `x`, trying `n` digits, then `n + 1`, and so on. -/
def shortestFrom (x : ℚ) : ℕ → ℕ → Option Decimal
  | 0, _ => none
  | fuel + 1, n =>
    match (neighbours x n).find? fun d => ofRat d.toRat = some x with
    | some d => some d
    | none => shortestFrom x fuel (n + 1)

/-- The shortest decimal that rounds to `x`. Seventeen digits are enough for every
binary64 number; the exact expansion stands in for the case that does not arise. -/
def format (x : ℚ) : Decimal :=
  (shortestFrom x 17 1).getD ⟨⌊x * 10 ^ 1074⌋, -1074⟩

variable {d : Decimal} {n : ℕ}

theorem ofRat_of_shortestFrom :
    ∀ {fuel n : ℕ}, shortestFrom x fuel n = some d → ofRat d.toRat = some x
  | fuel + 1, n, h => by
    simp only [shortestFrom] at h
    split at h
    · rename_i d' hfind
      cases h
      simpa using List.find?_some hfind
    · exact ofRat_of_shortestFrom h

/-- The exact decimal expansion of a representable number needs 1074 places at most. -/
theorem toRat_exact (h : Representable x) : (⟨⌊x * 10 ^ 1074⌋, -1074⟩ : Decimal).toRat = x := by
  obtain ⟨s, e, -, _, rfl, -⟩ := h
  obtain ⟨k, hk⟩ : ∃ k : ℕ, e = k - 1074 := ⟨(e + 1074).toNat, by omega⟩
  have hint : (s : ℚ) * 2 ^ e * 10 ^ 1074 = ((s * 2 ^ k * 5 ^ 1074 : ℤ) : ℚ) := by
    have h10 : (10 : ℚ) ^ 1074 = 2 ^ 1074 * 5 ^ 1074 := by rw [← mul_pow]; norm_num
    have h2 : (2 : ℚ) ^ e * 2 ^ 1074 = 2 ^ k := by
      rw [hk, zpow_sub₀ (by norm_num)]
      exact div_mul_cancel₀ _ (by positivity)
    rw [h10, mul_assoc, ← mul_assoc ((2 : ℚ) ^ e), h2, Int.cast_mul, Int.cast_mul, Int.cast_pow,
      Int.cast_pow, Int.cast_ofNat, Int.cast_ofNat, mul_assoc]
  have h10 : (10 : ℚ) ^ 1074 ≠ 0 := by positivity
  rw [Decimal.toRat, hint, Int.floor_intCast, ← hint, zpow_neg, ← div_eq_mul_inv]
  exact mul_div_cancel_right₀ _ h10

/-- What is printed reads back as the number that was printed. -/
theorem ofRat_format (h : Representable x) : ofRat (format x).toRat = some x := by
  unfold format
  cases hs : shortestFrom x 17 1 with
  | some => exact ofRat_of_shortestFrom hs
  | none =>
    rw [Option.getD_none, toRat_exact h]
    exact ofRat_of_representable h

/-! ## Printing integers -/

theorem exponent_of_mem_neighbours (h : d ∈ neighbours x n) : d.exponent = lastDigitExp x n ∧
      (d.coefficient = ⌊x / 10 ^ lastDigitExp x n⌋ ∨
        d.coefficient = ⌊x / 10 ^ lastDigitExp x n⌋ + 1) := by
  simp only [neighbours] at h
  split_ifs at h <;> simp only [List.mem_cons, List.not_mem_nil, or_false] at h <;>
    rcases h with rfl | rfl <;> simp

theorem abs_toRat_le_of_mem_neighbours (h : d ∈ neighbours x n) :
    |d.toRat| ≤ |x| + 10 ^ lastDigitExp x n := by
  obtain ⟨he, hc⟩ := exponent_of_mem_neighbours h
  have hpos : (0 : ℚ) < 10 ^ lastDigitExp x n := by positivity
  have hlo : (⌊x / 10 ^ lastDigitExp x n⌋ : ℚ) * 10 ^ lastDigitExp x n ≤ x :=
    (le_div_iff₀ hpos).1 (Int.floor_le _)
  have hhi : x < (⌊x / 10 ^ lastDigitExp x n⌋ + 1 : ℚ) * 10 ^ lastDigitExp x n :=
    (div_lt_iff₀ hpos).1 (Int.lt_floor_add_one _)
  have hclose : |d.toRat - x| ≤ 10 ^ lastDigitExp x n := by
    rw [Decimal.toRat, he, abs_le]
    rcases hc with hc | hc <;> rw [hc] <;> push_cast <;> constructor <;> linarith
  calc |d.toRat| = |(d.toRat - x) + x| := by rw [sub_add_cancel]
    _ ≤ |d.toRat - x| + |x| := abs_add_le _ _
    _ ≤ |x| + 10 ^ lastDigitExp x n := by linarith

/-- A neighbour of an integer that is cut before the units digit is even, hence
representable. -/
theorem representable_of_mem_neighbours {g : ℤ} (hg : |g| ≤ 2 ^ 53)
    (hn : 1 ≤ n) (he : 0 < lastDigitExp g n) (h : d ∈ neighbours g n) : Representable d.toRat := by
  obtain ⟨hexp, -⟩ := exponent_of_mem_neighbours h
  have hg0 : (g : ℚ) ≠ 0 := by
    intro h0
    simp only [lastDigitExp, h0, abs_zero, Int.log_zero_right] at he
    omega
  have hcut : (10 : ℚ) ^ lastDigitExp g n ≤ |(g : ℚ)| := by
    refine le_trans (zpow_le_zpow_right₀ (by norm_num) (?_ : _ ≤ Int.log 10 |(g : ℚ)|)) ?_
    · simp only [lastDigitExp]
      omega
    · exact_mod_cast Int.zpow_log_le_self (by norm_num) (abs_pos.2 hg0)
  obtain ⟨k, hk⟩ : ∃ k : ℕ, lastDigitExp g n = k + 1 := ⟨(lastDigitExp g n - 1).toNat, by omega⟩
  have hd : d.toRat = ((d.coefficient * 5 * 10 ^ k : ℤ) : ℚ) * 2 ^ (1 : ℤ) := by
    rw [Decimal.toRat, hexp, hk, zpow_add₀ (by norm_num), zpow_natCast]
    push_cast
    ring
  have habs : |d.toRat| ≤ 2 ^ 54 := by
    have hg' : |(g : ℚ)| ≤ 2 ^ 53 := by exact_mod_cast hg
    have := abs_toRat_le_of_mem_neighbours h
    linarith
  refine ⟨_, 1, ?_, by norm_num, hd, lt_of_le_of_lt habs (pow_lt_pow_right₀ (by norm_num)
    (by norm_num))⟩
  rw [hd, abs_mul, ← Int.cast_abs, abs_of_pos (by norm_num : (0 : ℚ) < 2 ^ (1 : ℤ))] at habs
  have : ((|d.coefficient * 5 * 10 ^ k| : ℤ) : ℚ) ≤ 2 ^ 53 := by
    rw [zpow_one] at habs
    linarith
  exact_mod_cast this

theorem shortestFrom_intCast {g : ℤ} (hg : |g| ≤ 2 ^ 53) :
    ∀ {fuel n : ℕ} {d : Decimal}, 1 ≤ n → 0 ≤ lastDigitExp g n →
      shortestFrom g fuel n = some d → d.toRat = g
  | fuel + 1, n, d, hn, he, h => by
    rcases he.eq_or_lt with he0 | hpos
    · -- every digit of `g` is there : the first neighbour is `g` itself
      have hhead : (neighbours g n).find? (fun d => ofRat d.toRat = some (g : ℚ)) =
          some ⟨g, 0⟩ := by simp [neighbours, ← he0, ofRat_intCast hg]
      simp only [shortestFrom, hhead, Option.some.injEq] at h
      rw [← h, Decimal.toRat_intCast]
    · simp only [shortestFrom] at h
      split at h
      · rename_i d' hfind
        obtain rfl := Option.some.inj h
        have hrep := representable_of_mem_neighbours hg hn hpos (List.mem_of_find?_eq_some hfind)
        have hread : ofRat d'.toRat = some (g : ℚ) := by simpa using List.find?_some hfind
        rw [ofRat_of_representable hrep] at hread
        exact Option.some.inj hread
      · exact shortestFrom_intCast hg (by omega) (by simp only [lastDigitExp] at hpos ⊢; omega) h

/-- Integers up to `2 ^ 53` are printed exactly. -/
theorem toRat_format_intCast {g : ℤ} (hg : |g| ≤ 2 ^ 53) : (format g).toRat = g := by
  unfold format
  cases hs : shortestFrom g 17 1 with
  | some =>
    refine shortestFrom_intCast hg le_rfl ?_ hs
    have hlog : 0 ≤ Int.log 10 |(g : ℚ)| := by
      rw [← Int.cast_abs]
      rcases (abs_nonneg g).eq_or_lt with h0 | hpos
      · simp [← h0]
      · exact (Int.zpow_le_iff_le_log (by norm_num) (by exact_mod_cast hpos)).1
          (by simpa using (by exact_mod_cast hpos : (1 : ℚ) ≤ ((|g| : ℤ) : ℚ)))
    simp only [lastDigitExp]
    omega
  | none => rw [Option.getD_none, toRat_exact (representable_intCast hg)]

end Binary64
