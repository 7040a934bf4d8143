import Mathlib
import Runkite.Numerals

/-!
# Numbers as they are written

A JSON number is kept as its token. `numberParts` brings a token into one form without expanding its
exponent : a sign, a coefficient without zeros at its ends, and an exponent, on which it computes
digit by digit (`shiftExponent`). Two tokens have the same parts if and only if they denote the same
number (`numberParts_eq_iff`), however long their exponents are, and are compared as the numbers are
(`compareNumbers_exact`).
-/

open Numerals

namespace Runkite

/-! ## Tokens -/

/-- The exponent of a token. The sign is absent, `+` or `-`. -/
structure ExponentPart where
  upper : Bool
  sign : Option Bool
  digits : List Digit
  nonempty : digits ≠ []

/-- A token of the grammar of JSON numbers. There is a fraction if it has digits. -/
structure NumberToken where
  negative : Bool
  int : List Digit
  fraction : List Digit
  exp : Option ExponentPart
  wellFormed : int = [0] ∨ Plain int

/-- An exponent as a text : a minus sign, or none, and digits. -/
@[ext]
structure Exponent where
  negative : Bool
  digits : List Digit
deriving DecidableEq, Repr

/-- The text `0`. -/
def Exponent.zero : Exponent := ⟨false, [0]⟩

def Exponent.toInt (e : Exponent) : ℤ :=
  if e.negative then -(Numerals.value e.digits : ℤ) else Numerals.value e.digits

namespace NumberToken

/-- The text after `e`, or `0`. A plus sign is dropped. -/
def exponent (t : NumberToken) : Exponent :=
  match t.exp with
  | none => .zero
  | some e => ⟨e.sign = some true, e.digits⟩

/-- The number that a token denotes. -/
def toRat (t : NumberToken) : ℚ :=
  (if t.negative then -1 else 1) * (Numerals.value (t.int ++ t.fraction) : ℚ) *
    10 ^ (t.exponent.toInt - t.fraction.length)

end NumberToken

/-! ## Exponents -/

def itoa (n : ℤ) : Exponent := if n = 0 then .zero else ⟨n < 0, ofNat n.natAbs⟩

/-- The zero of a sum has no sign. -/
def Exponent.spelled (e : Exponent) : Exponent := if e.digits = [0] then .zero else e

/-- The sum of an exponent that is not zero and a shift, as sign and digits. -/
def shiftDigits (negative : Bool) (digits : List Digit) (shift : ℤ) : Exponent :=
  if shift = 0 then ⟨negative, digits⟩
  else
    let magnitude := ofNat shift.natAbs
    if negative = decide (shift < 0) then ⟨negative, addDigits digits magnitude⟩
    else if atLeast digits magnitude then ⟨negative, subtractDigits digits magnitude⟩
    else ⟨shift < 0, subtractDigits magnitude digits⟩

def shiftExponent (e : Exponent) (shift : ℤ) : Exponent :=
  let digits := trimLeft e.digits
  if digits = [] then itoa shift else (shiftDigits e.negative digits shift).spelled

/-- An exponent as it is printed : no leading zeros, and no sign on zero. -/
def Exponent.Canonical (e : Exponent) : Prop := e = .zero ∨ Plain e.digits

theorem Exponent.toInt_zero : Exponent.zero.toInt = 0 := by simp [toInt, zero, value]

theorem toInt_itoa (n : ℤ) : (itoa n).toInt = n := by
  unfold itoa
  split_ifs with hzero
  · rw [Exponent.toInt_zero, hzero]
  · simp only [Exponent.toInt, value_ofNat, decide_eq_true_eq]
    split_ifs <;> omega

theorem canonical_itoa (n : ℤ) : (itoa n).Canonical := by
  unfold itoa
  split_ifs with hzero
  · exact .inl rfl
  · exact .inr (plain_ofNat (by omega))

theorem plain_addDigits {as bs : List Digit} (h : value as + value bs ≠ 0) :
    Plain (addDigits as bs) := by
  refine plain_trimLeft fun hnil => h ?_
  rw [← value_addDigits, addDigits, hnil, value_nil]

theorem Exponent.toInt_spelled (e : Exponent) : e.spelled.toInt = e.toInt := by
  unfold spelled
  split_ifs with hzero
  · rw [toInt_zero, toInt, hzero]
    simp [value]
  · rfl

theorem shiftDigits_spec (negative : Bool) {digits : List Digit} (h : Plain digits) (shift : ℤ) :
    (shiftDigits negative digits shift).toInt = (⟨negative, digits⟩ : Exponent).toInt + shift ∧
      (Plain (shiftDigits negative digits shift).digits ∨
        (shiftDigits negative digits shift).digits = [0]) := by
  unfold shiftDigits
  dsimp only
  split_ifs with hzero hsigns hless
  · exact ⟨by rw [hzero, add_zero], .inl h⟩
  all_goals
    have hmagnitude : Plain (ofNat shift.natAbs) := plain_ofNat (by omega)
    have hofNat := value_ofNat shift.natAbs
  · have hpos := h.value_pos
    refine ⟨?_, .inl (plain_addDigits (by omega))⟩
    simp only [Exponent.toInt, value_addDigits, hofNat, hsigns, decide_eq_true_eq]
    split_ifs <;> omega
  · refine ⟨?_, plain_or_zero_subtractDigits _ _⟩
    have hle := (atLeast_iff h hmagnitude).1 hless
    simp only [Exponent.toInt, value_subtractDigits hle]
    rw [hofNat] at hle ⊢
    cases negative <;> simp at hsigns ⊢ <;> omega
  · refine ⟨?_, plain_or_zero_subtractDigits _ _⟩
    have hle : value digits ≤ value (ofNat shift.natAbs) := by
      rw [← not_lt]
      exact fun hlt => hless ((atLeast_iff h hmagnitude).2 hlt.le)
    simp only [Exponent.toInt, value_subtractDigits hle]
    rw [hofNat] at hle ⊢
    cases negative <;> simp at hsigns ⊢ <;> split_ifs <;> omega

/-- The shifted exponent is a sum, in the one way in which it is printed. -/
theorem shiftExponent_spec (e : Exponent) (shift : ℤ) :
    (shiftExponent e shift).toInt = e.toInt + shift ∧ (shiftExponent e shift).Canonical := by
  have hvalue := value_trimLeft e.digits
  unfold shiftExponent
  dsimp only
  split_ifs with hnil
  · -- the exponent is zero
    have hzero : e.toInt = 0 := by
      rw [hnil, value_nil] at hvalue
      simp [Exponent.toInt, ← hvalue]
    exact ⟨by rw [toInt_itoa, hzero, zero_add], canonical_itoa shift⟩
  · obtain ⟨hsum, hdigits⟩ := shiftDigits_spec e.negative (plain_trimLeft hnil) shift
    constructor
    · rw [Exponent.toInt_spelled, hsum]
      simp [Exponent.toInt, hvalue]
    · unfold Exponent.spelled
      split_ifs with hzero
      · exact .inl rfl
      · exact .inr (hdigits.resolve_right hzero)

/-- The order of two numbers from their signs and the order of their magnitudes. -/
def compareSigned (an bn : Bool) (order : Ordering) : Ordering :=
  if an ≠ bn then if an then .lt else .gt else if an then order.swap else order

theorem compareSigned_eq {α : Type} [AddCommGroup α] [LinearOrder α] [IsOrderedAddMonoid α]
    {x y : α} {an bn : Bool} (hx : 0 ≤ x) (hy : 0 ≤ y) (hxn : an → 0 < x) (hyn : bn → 0 < y) :
    compareSigned an bn (cmp x y) = cmp (if an then -x else x) (if bn then -y else y) := by
  cases an <;> cases bn
  · rfl
  · exact ((neg_lt_zero.2 (hyn rfl)).trans_le hx).cmp_eq_gt.symm
  · exact ((neg_lt_zero.2 (hxn rfl)).trans_le hy).cmp_eq_lt.symm
  · exact (cmp_swap x y).trans (StrictAnti.cmp_map_eq (f := Neg.neg) (fun _ _ => neg_lt_neg) x y).symm

def compareExponent (a b : Exponent) : Ordering :=
  compareSigned a.negative b.negative (compareText a.digits b.digits)

theorem compareExponent_eq {a b : Exponent} (ha : a.Canonical) (hb : b.Canonical) :
    compareExponent a b = cmp a.toInt b.toInt := by
  have hdigits : ∀ {e : Exponent}, e.Canonical → (Plain e.digits ∨ e.digits = [0]) ∧
      (e.negative → 0 < (value e.digits : ℤ)) := by
    rintro e (rfl | h)
    · exact ⟨.inr rfl, nofun⟩
    · exact ⟨.inl h, fun _ => by exact_mod_cast h.value_pos⟩
  have hcast := Nat.strictMono_cast (α := ℤ)
  rw [compareExponent, compareText_eq (hdigits ha).1 (hdigits hb).1,
    ← hcast.cmp_map_eq]
  exact compareSigned_eq (by positivity) (by positivity) (hdigits ha).2 (hdigits hb).2

theorem Exponent.Canonical.eq_of_toInt_eq {e e' : Exponent} (h : e.Canonical) (h' : e'.Canonical)
    (heq : e.toInt = e'.toInt) : e = e' := by
  have hcmp := compareExponent_eq h h'
  rw [heq, cmp_self_eq_eq, compareExponent, compareSigned] at hcmp
  split_ifs at hcmp with hsign hnegative
  · exact Exponent.ext (not_not.1 hsign) (eq_of_compareText (by simpa using hcmp))
  · exact Exponent.ext (not_not.1 hsign) (eq_of_compareText hcmp)

/-- Texts are added and subtracted into the decimal form of the result. Only the sum of two zeros is
the empty text, and `shiftExponent` adds none. -/
theorem digit_arithmetic :
    (∀ as bs : List Digit, (Plain as ∨ as = [0]) → (Plain bs ∨ bs = [0]) →
      (as ≠ [0] ∨ bs ≠ [0] → (⟨false, addDigits as bs⟩ : Exponent) = itoa (value as + value bs)) ∧
      (value bs ≤ value as →
        (⟨false, subtractDigits as bs⟩ : Exponent) = itoa (value as - value bs))) ∧
    ∀ (t : NumberToken) (shift : ℤ),
      shiftExponent t.exponent shift = itoa (t.exponent.toInt + shift) := by
  have hform : ∀ {e : Exponent} {n : ℤ}, e.toInt = n → e.Canonical → e = itoa n :=
    fun hn h => h.eq_of_toInt_eq (canonical_itoa _) (hn.trans (toInt_itoa _).symm)
  have hpos : ∀ {ds : List Digit}, Plain ds ∨ ds = [0] → ds ≠ [0] → 0 < value ds :=
    fun h hne => (h.resolve_right hne).value_pos
  refine ⟨fun as bs ha hb => ⟨fun hne => ?_, fun hle => ?_⟩, fun t shift => ?_⟩
  · have hsum : value as + value bs ≠ 0 := by
      rcases hne with h | h
      · have := hpos ha h
        omega
      · have := hpos hb h
        omega
    exact hform (by simp [Exponent.toInt, value_addDigits]) (.inr (plain_addDigits hsum))
  · refine hform (by simp [Exponent.toInt, value_subtractDigits hle, hle]) ?_
    rcases plain_or_zero_subtractDigits as bs with h | h
    · exact .inr h
    · exact .inl (by rw [h]; rfl)
  · obtain ⟨hsum, hcan⟩ := shiftExponent_spec t.exponent shift
    exact hform hsum hcan

theorem addDigits_zero_zero :
    (⟨false, addDigits [0] [0]⟩ : Exponent) ≠ itoa (value [0] + value [0]) := by
  decide

/-! ## Parts -/

/-- The sign, the coefficient and the exponent of a number. -/
@[ext]
structure Parts where
  negative : Bool
  coefficient : List Digit
  exponent : Exponent
deriving DecidableEq, Repr

/-- `numberParts`. A zero has no sign. -/
def numberParts (t : NumberToken) : Parts :=
  let coefficient := trimLeft (t.int ++ t.fraction)
  if coefficient = [] then ⟨false, [0], .zero⟩
  else
    let trimmed := trimRight coefficient
    ⟨t.negative, trimmed,
      shiftExponent t.exponent (coefficient.length - trimmed.length - t.fraction.length)⟩

def equalNumbers (a b : NumberToken) : Bool := numberParts a = numberParts b

namespace Parts

def toRat (p : Parts) : ℚ :=
  (if p.negative then -1 else 1) * (Numerals.value p.coefficient : ℚ) * 10 ^ p.exponent.toInt

/-- No zeros at the ends of the coefficient, or the one way to write zero. -/
def Normal (p : Parts) : Prop :=
  p = ⟨false, [0], .zero⟩ ∨
    Plain p.coefficient ∧ ¬ 10 ∣ Numerals.value p.coefficient ∧ p.exponent.Canonical

end Parts

variable {ds : List Digit}

/-- The last digit of a trimmed numeral is not zero. -/
theorem not_dvd_value_trimRight (h : trimRight ds ≠ []) : ¬ 10 ∣ value (trimRight ds) := by
  have hlast := List.rdropWhile_last_not (fun d : Digit => decide (d = 0)) ds h
  have hsplit := List.dropLast_append_getLast h
  intro hdvd
  rw [← hsplit, value_append] at hdvd
  have hvalue : value [(trimRight ds).getLast h] = (trimRight ds).getLast h := by simp [value]
  rw [hvalue, List.length_singleton, pow_one] at hdvd
  have hdigit := ((trimRight ds).getLast h).isLt
  have hzero : ((trimRight ds).getLast h : ℕ) = 0 := by omega
  exact hlast (by simpa using Fin.ext hzero)

theorem plain_trimRight (h : Plain ds) : Plain (trimRight ds) := by
  obtain ⟨d, ds', rfl, hd⟩ := h
  have hne : trimRight (d :: ds') ≠ [] := by
    intro hnil
    have hall := List.rdropWhile_eq_nil_iff.1 hnil d List.mem_cons_self
    exact hd (by simpa using hall)
  have hprefix : trimRight (d :: ds') <+: d :: ds' := List.rdropWhile_prefix _ _
  cases heq : trimRight (d :: ds') with
  | nil => exact absurd heq hne
  | cons d' rest =>
    rw [heq] at hprefix
    obtain ⟨rfl, -⟩ := List.cons_prefix_cons.1 hprefix
    exact ⟨d', rest, rfl, hd⟩

theorem normal_numberParts (t : NumberToken) : (numberParts t).Normal := by
  unfold numberParts
  dsimp only
  split_ifs with hnil
  · exact .inl rfl
  · have hplain := plain_trimRight (plain_trimLeft hnil)
    refine .inr ⟨hplain, not_dvd_value_trimRight ?_, (shiftExponent_spec _ _).2⟩
    obtain ⟨d, _, heq, -⟩ := hplain
    rw [heq]
    nofun

theorem toRat_numberParts (t : NumberToken) : (numberParts t).toRat = t.toRat := by
  have hvalue := value_trimLeft (t.int ++ t.fraction)
  unfold numberParts
  dsimp only
  split_ifs with hnil
  · rw [hnil, value_nil] at hvalue
    have hzero : value [0] = 0 := by simp [value]
    simp [Parts.toRat, NumberToken.toRat, ← hvalue, hzero, mul_zero, zero_mul]
  · have htrim := value_trimRight (trimLeft (t.int ++ t.fraction))
    have hlen : (trimRight (trimLeft (t.int ++ t.fraction))).length ≤
        (trimLeft (t.int ++ t.fraction)).length := (List.rdropWhile_prefix _ _).length_le
    rw [Parts.toRat, NumberToken.toRat, (shiftExponent_spec _ _).1, ← hvalue, htrim]
    push_cast
    rw [mul_assoc, mul_assoc, mul_assoc, ← zpow_natCast, ← zpow_add₀ (by norm_num)]
    congr 3
    omega

namespace Parts

def magnitude (p : Parts) : ℚ := value p.coefficient * 10 ^ p.exponent.toInt

theorem toRat_eq (p : Parts) : p.toRat = if p.negative then -p.magnitude else p.magnitude := by
  unfold toRat magnitude
  split_ifs <;> ring

theorem magnitude_pos {p : Parts} (h : Plain p.coefficient) : 0 < p.magnitude :=
  mul_pos (by exact_mod_cast h.value_pos) (zpow_pos (by norm_num) _)

theorem magnitude_nonneg (p : Parts) : 0 ≤ p.magnitude := by
  unfold magnitude
  positivity

theorem Normal.pos_of_negative {p : Parts} (h : p.Normal) (hn : p.negative) : 0 < p.magnitude := by
  obtain rfl | ⟨hplain, -⟩ := h
  · cases hn
  · exact magnitude_pos hplain

theorem Normal.plain {p : Parts} (h : p.Normal) (hne : p.coefficient ≠ [0]) :
    Plain p.coefficient := by
  obtain rfl | ⟨hplain, -⟩ := h
  · exact absurd rfl hne
  · exact hplain

theorem Normal.eq_zero {p : Parts} (h : p.Normal) (hzero : p.coefficient = [0]) :
    p.negative = false ∧ p.magnitude = 0 := by
  obtain rfl | ⟨⟨d, ds, hcons, hd⟩, -⟩ := h
  · exact ⟨rfl, by simp [magnitude, value]⟩
  · exact absurd (List.cons.inj (hcons.symm.trans hzero)).1 hd

end Parts

/-- A coefficient that ten does not divide and its exponent can be read off the value. -/
theorem eq_of_mul_zpow_eq {m n : ℕ} {e f : ℤ} (hm : ¬ 10 ∣ m) (hn : ¬ 10 ∣ n)
    (h : (m : ℚ) * 10 ^ e = n * 10 ^ f) : m = n ∧ e = f := by
  have hle : ∀ {m n : ℕ} {e f : ℤ}, ¬ 10 ∣ m → (m : ℚ) * 10 ^ e = n * 10 ^ f → f ≤ e := by
    intro m n e f hm h
    by_contra hlt
    obtain ⟨k, _⟩ := Int.eq_ofNat_of_zero_le (show 0 ≤ f - e - 1 by omega)
    have hf : f = e + (k + 1 : ℕ) := by omega
    rw [hf, zpow_add₀ (by norm_num), zpow_natCast, mul_comm ((10 : ℚ) ^ e), ← mul_assoc] at h
    have hcancel : (m : ℚ) = n * 10 ^ (k + 1) :=
      mul_right_cancel₀ (zpow_ne_zero e (by norm_num)) h
    have hnat : m = n * 10 ^ (k + 1) := by exact_mod_cast hcancel
    exact hm (hnat ▸ Dvd.dvd.mul_left (dvd_pow_self 10 (Nat.succ_ne_zero k)) n)
  obtain rfl : e = f := le_antisymm (hle hn h.symm) (hle hm h)
  exact ⟨by exact_mod_cast mul_right_cancel₀ (zpow_ne_zero e (by norm_num)) h, rfl⟩

theorem Parts.Normal.eq_of_toRat_eq {p q : Parts} (hp : p.Normal) (hq : q.Normal)
    (h : p.toRat = q.toRat) : p = q := by
  have hzero : (⟨false, [0], .zero⟩ : Parts).magnitude = 0 := by simp [magnitude, value]
  rw [toRat_eq, toRat_eq] at h
  have hsame : p.negative = q.negative ∧ p.magnitude = q.magnitude := by
    have hp0 := p.magnitude_nonneg
    have hq0 := q.magnitude_nonneg
    have hpn := hp.pos_of_negative
    have hqn := hq.pos_of_negative
    cases hn : p.negative <;> cases hn' : q.negative <;> simp [hn, hn'] at h hpn hqn ⊢ <;> linarith
  rcases hp with rfl | ⟨hplain, hdvd, hcan⟩ <;> rcases hq with rfl | ⟨hplain', hdvd', hcan'⟩
  · rfl
  · exact absurd (hsame.2.symm.trans hzero) (magnitude_pos hplain').ne'
  · exact absurd (hsame.2.trans hzero) (magnitude_pos hplain).ne'
  · obtain ⟨hcoefficient, hexponent⟩ := eq_of_mul_zpow_eq hdvd hdvd' hsame.2
    exact Parts.ext hsame.1 (hplain.eq_of_value_eq hplain' hcoefficient)
      (hcan.eq_of_toInt_eq hcan' hexponent)

/-- Tokens are equal if they denote the same number. -/
theorem numberParts_eq_iff (a b : NumberToken) :
    numberParts a = numberParts b ↔ a.toRat = b.toRat := by
  constructor
  · intro h
    rw [← toRat_numberParts a, h, toRat_numberParts]
  · intro h
    refine (normal_numberParts a).eq_of_toRat_eq (normal_numberParts b) ?_
    rw [toRat_numberParts, toRat_numberParts, h]

/-! ## Order -/

namespace Parts

/-- The order of the magnitudes. The coefficients are compared as if the shorter had zeros at its
end. -/
def compareMagnitude (a b : Parts) : Ordering :=
  let digits := max a.coefficient.length b.coefficient.length
  if a.coefficient = [0] then .lt
  else if b.coefficient = [0] then .gt
  else
    (compareExponent (shiftExponent a.exponent a.coefficient.length)
        (shiftExponent b.exponent b.coefficient.length)).then
      (cmp (padRight digits a.coefficient) (padRight digits b.coefficient))

end Parts

/-- `CompareNumbers`, with the results -1, 0 and 1. -/
def NumberToken.compareNumbers (a b : NumberToken) : Ordering :=
  let a := numberParts a
  let b := numberParts b
  if a.coefficient = [0] ∧ b.coefficient = [0] then .eq
  else compareSigned a.negative b.negative (a.compareMagnitude b)

namespace Parts

/-- The decimal point decides first. -/
theorem magnitude_lt {a b : Parts} (hb : Plain b.coefficient)
    (h : a.exponent.toInt + a.coefficient.length < b.exponent.toInt + b.coefficient.length) :
    a.magnitude < b.magnitude := by
  have hlow : (value a.coefficient : ℚ) < 10 ^ (a.coefficient.length : ℤ) := by
    exact_mod_cast value_lt a.coefficient
  have hpow : (10 : ℚ) ^ (b.coefficient.length - 1 : ℕ) ≤ value b.coefficient := by
    exact_mod_cast hb.pow_le_value
  calc a.magnitude < 10 ^ (a.coefficient.length : ℤ) * 10 ^ a.exponent.toInt :=
        mul_lt_mul_of_pos_right hlow (by positivity)
    _ = 10 ^ (a.coefficient.length + a.exponent.toInt) := (zpow_add₀ (by norm_num) _ _).symm
    _ ≤ 10 ^ (((b.coefficient.length - 1 : ℕ) : ℤ) + b.exponent.toInt) :=
        zpow_le_zpow_right₀ (by norm_num) (by omega)
    _ = 10 ^ (b.coefficient.length - 1 : ℕ) * 10 ^ b.exponent.toInt := by
        rw [zpow_add₀ (by norm_num), zpow_natCast]
    _ ≤ b.magnitude := mul_le_mul_of_nonneg_right hpow (by positivity)

theorem magnitude_padRight (p : Parts) {k : ℕ} (h : p.coefficient.length ≤ k) :
    p.magnitude = value (padRight k p.coefficient) *
      10 ^ (p.exponent.toInt + p.coefficient.length - k) := by
  rw [magnitude, value_padRight]
  push_cast
  rw [mul_assoc, ← zpow_natCast, ← zpow_add₀ (by norm_num)]
  congr 2
  omega

theorem compareMagnitude_eq {a b : Parts} (ha : a.Normal) (hb : b.Normal)
    (hne : ¬ (a.coefficient = [0] ∧ b.coefficient = [0])) :
    a.compareMagnitude b = cmp a.magnitude b.magnitude := by
  unfold compareMagnitude
  dsimp only
  split_ifs with ha0 hb0
  · rw [(ha.eq_zero ha0).2, (magnitude_pos (hb.plain fun h => hne ⟨ha0, h⟩)).cmp_eq_lt]
  · rw [(hb.eq_zero hb0).2, (magnitude_pos (ha.plain ha0)).cmp_eq_gt]
  obtain ⟨hsum, hcan⟩ := shiftExponent_spec a.exponent a.coefficient.length
  obtain ⟨hsum', hcan'⟩ := shiftExponent_spec b.exponent b.coefficient.length
  rw [compareExponent_eq hcan hcan', hsum, hsum']
  rcases lt_trichotomy (a.exponent.toInt + a.coefficient.length)
    (b.exponent.toInt + b.coefficient.length) with h | h | h
  · rw [h.cmp_eq_lt, (magnitude_lt (hb.plain hb0) h).cmp_eq_lt]
    rfl
  · -- the point is at the same place, so that the padded coefficients have one unit
    rw [a.magnitude_padRight (le_max_left _ b.coefficient.length),
      b.magnitude_padRight (le_max_right a.coefficient.length _), h, cmp_self_eq_eq,
      cmp_mul_pos_right (by positivity), Nat.strictMono_cast.cmp_map_eq,
      cmp_eq_cmp_value (by simp [padRight])]
    rfl
  · rw [h.cmp_eq_gt, (magnitude_lt (ha.plain ha0) h).cmp_eq_gt]
    rfl

end Parts

/-- Tokens of any length are ordered as the numbers that they denote. -/
theorem compareNumbers_exact (a b : NumberToken) :
    a.compareNumbers b = cmp (a.toRat - b.toRat) 0 ∧
      (equalNumbers a b = true ↔ a.toRat = b.toRat) := by
  refine ⟨?_, by rw [equalNumbers, decide_eq_true_iff, numberParts_eq_iff]⟩
  have ha := normal_numberParts a
  have hb := normal_numberParts b
  rw [cmp_sub_zero, ← toRat_numberParts a, ← toRat_numberParts b, Parts.toRat_eq, Parts.toRat_eq]
  unfold NumberToken.compareNumbers
  dsimp only
  split
  · rename_i hzero
    simp [ha.eq_zero hzero.1, hb.eq_zero hzero.2]
  · rename_i hzero
    rw [Parts.compareMagnitude_eq ha hb hzero]
    exact compareSigned_eq (Parts.magnitude_nonneg _) (Parts.magnitude_nonneg _)
      (Parts.Normal.pos_of_negative ha) (Parts.Normal.pos_of_negative hb)

end Runkite
