import Mathlib.Algebra.Order.BigOperators.Group.List
import Mathlib.Data.List.DropRight
import Mathlib.Data.Nat.Digits.Lemmas
import Mathlib.Order.Compare

/-!
# Arithmetic on decimal numerals

Natural numbers of any size as lists of digits, the most significant first. A numeral without leading
zeros (`Plain`) is determined by its value (`Plain.eq_of_value_eq`), and is compared by its length
and then digit by digit (`atLeast_iff`, `compareText_eq`).
-/

namespace Numerals

abbrev Digit := Fin 10

/-! ## Values -/

/-- The value of digits of which the least significant comes first. -/
def low (ds : List Digit) : ℕ := Nat.ofDigits 10 (ds.map Fin.val)

def value (ds : List Digit) : ℕ := low ds.reverse

@[simp] theorem low_nil : low [] = 0 := rfl

@[simp] theorem low_cons (d : Digit) (ds : List Digit) : low (d :: ds) = d + 10 * low ds :=
  Nat.ofDigits_cons

theorem low_lt (ds : List Digit) : low ds < 10 ^ ds.length := by
  have h := Nat.ofDigits_lt_base_pow_length (b := 10) (l := ds.map Fin.val) (by decide) (by
    intro x hx
    obtain ⟨d, -, rfl⟩ := List.mem_map.1 hx
    exact d.isLt)
  rwa [List.length_map] at h

variable {as bs : List Digit} {ds : List Digit}

theorem low_inj (hlen : as.length = bs.length) (h : low as = low bs) : as = bs := by
  have hdigits : ∀ ds : List Digit, ∀ x ∈ ds.map Fin.val, x < 10 := by
    intro ds x hx
    obtain ⟨d, -, rfl⟩ := List.mem_map.1 hx
    exact d.isLt
  refine List.map_injective_iff.2 Fin.val_injective ?_
  exact Nat.ofDigits_inj_of_len_eq (by decide) (by simpa using hlen) (hdigits as) (hdigits bs) h

@[simp] theorem value_nil : value [] = 0 := rfl

theorem value_append (as bs : List Digit) :
    value (as ++ bs) = value as * 10 ^ bs.length + value bs := by
  rw [value, List.reverse_append, low, List.map_append, Nat.ofDigits_append, List.length_map,
    List.length_reverse, value, value, low, low]
  ring

theorem value_cons (d : Digit) (ds : List Digit) :
    value (d :: ds) = d * 10 ^ ds.length + value ds := by
  have h := value_append [d] ds
  have hd : value [d] = d := by simp [value]
  rwa [hd] at h

theorem value_lt (ds : List Digit) : value ds < 10 ^ ds.length := by
  have h := low_lt ds.reverse
  rwa [List.length_reverse] at h

theorem value_inj (hlen : as.length = bs.length) (h : value as = value bs) : as = bs :=
  List.reverse_injective (low_inj (by simpa using hlen) h)

/-! ## Zeros at the ends -/

instance neZeroTen : NeZero 10 := ⟨by decide⟩

def trimLeft (ds : List Digit) : List Digit := ds.dropWhile (· = 0)

def trimRight (ds : List Digit) : List Digit := ds.rdropWhile (· = 0)

theorem value_trimLeft (ds : List Digit) : value (trimLeft ds) = value ds := by
  induction ds with
  | nil => rfl
  | cons d ds ih =>
    by_cases hd : d = 0
    · rw [trimLeft, List.dropWhile_cons_of_pos (by simpa using hd)]
      rw [trimLeft] at ih
      rw [ih, value_cons, hd]
      simp
    · rw [trimLeft, List.dropWhile_cons_of_neg (by simpa using hd)]

/-- What is dropped at the end is a power of ten. -/
theorem value_trimRight (ds : List Digit) :
    value ds = value (trimRight ds) * 10 ^ (ds.length - (trimRight ds).length) := by
  induction ds using List.reverseRecOn with
  | nil => rfl
  | append_singleton ds d ih =>
    by_cases hd : d = 0
    · have htrim : trimRight (ds ++ [d]) = trimRight ds := by
        rw [trimRight, List.rdropWhile_concat_pos _ _ _ (by simpa using hd)]
        rfl
      have hlen : (trimRight ds).length ≤ ds.length := (List.rdropWhile_prefix _ ds).length_le
      rw [htrim, value_append, ih, hd, List.length_append]
      simp only [List.length_singleton]
      rw [Nat.sub_add_comm hlen, pow_succ]
      simp [value]
      ring
    · have htrim : trimRight (ds ++ [d]) = ds ++ [d] := by
        rw [trimRight, List.rdropWhile_concat_neg _ _ _ (by simpa using hd)]
      rw [htrim]
      simp

/-! ## Plain numerals -/

/-- A numeral with a first digit, which is not zero. -/
def Plain (ds : List Digit) : Prop := ∃ d ds', ds = d :: ds' ∧ d ≠ 0

theorem plain_trimLeft (h : trimLeft ds ≠ []) : Plain (trimLeft ds) := by
  cases heq : trimLeft ds with
  | nil => exact absurd heq h
  | cons d ds' =>
    refine ⟨d, ds', rfl, ?_⟩
    have hnot : (ds.dropWhile fun d : Digit => decide (d = 0)).head? = some d := by
      rw [trimLeft] at heq
      rw [heq, List.head?_cons]
    have hfalse := List.head?_dropWhile_not (fun d : Digit => decide (d = 0)) ds
    rw [hnot] at hfalse
    simpa using hfalse

theorem Plain.pow_le_value (h : Plain ds) : 10 ^ (ds.length - 1) ≤ value ds := by
  obtain ⟨d, ds', rfl, hd⟩ := h
  have hpos : 1 ≤ (d : ℕ) := Nat.one_le_iff_ne_zero.2 fun hval => hd (Fin.ext hval)
  rw [value_cons, List.length_cons, Nat.add_sub_cancel]
  calc 10 ^ ds'.length = 1 * 10 ^ ds'.length := (one_mul _).symm
    _ ≤ (d : ℕ) * 10 ^ ds'.length := Nat.mul_le_mul_right _ hpos
    _ ≤ (d : ℕ) * 10 ^ ds'.length + value ds' := Nat.le_add_right _ _

theorem Plain.value_pos (h : Plain ds) : 0 < value ds :=
  lt_of_lt_of_le (Nat.pow_pos (by decide)) h.pow_le_value

/-- A longer plain numeral is larger. -/
theorem Plain.value_lt_of_length_lt (hb : Plain bs)
    (hlen : as.length < bs.length) : value as < value bs :=
  calc value as < 10 ^ as.length := value_lt as
    _ ≤ 10 ^ (bs.length - 1) := Nat.pow_le_pow_right (by decide) (by omega)
    _ ≤ value bs := hb.pow_le_value

theorem Plain.eq_of_value_eq (ha : Plain as) (hb : Plain bs)
    (h : value as = value bs) : as = bs := by
  refine value_inj ?_ h
  rcases Nat.lt_trichotomy as.length bs.length with hlt | heq | hgt
  · exact absurd h (hb.value_lt_of_length_lt hlt).ne
  · exact heq
  · exact absurd h (ha.value_lt_of_length_lt hgt).ne'

/-- The comparison of numerals as texts. -/
def atLeast (as bs : List Digit) : Bool :=
  bs.length < as.length || (as.length = bs.length && bs ≤ as)

theorem lt_iff_value_lt : ∀ {as bs : List Digit}, as.length = bs.length →
    (as < bs ↔ value as < value bs)
  | [], [], _ => by simp
  | a :: as, b :: bs, h => by
    have hlen : as.length = bs.length := Nat.succ.inj h
    have ih := lt_iff_value_lt hlen
    have hlas := value_lt as
    have hlbs := value_lt bs
    rw [List.cons_lt_cons_iff, ih, value_cons, value_cons, ← hlen]
    rw [← hlen] at hlbs
    constructor
    · rintro (hab | ⟨rfl, hrest⟩)
      · have hstep : ((a : ℕ) + 1) * 10 ^ as.length ≤ b * 10 ^ as.length :=
          Nat.mul_le_mul_right _ hab
        rw [add_mul, one_mul] at hstep
        omega
      · omega
    · intro hlt
      rcases lt_trichotomy a b with hab | rfl | hba
      · exact .inl hab
      · exact .inr ⟨rfl, by omega⟩
      · have hstep : ((b : ℕ) + 1) * 10 ^ as.length ≤ a * 10 ^ as.length :=
          Nat.mul_le_mul_right _ hba
        rw [add_mul, one_mul] at hstep
        omega

theorem atLeast_iff (ha : Plain as) (hb : Plain bs) :
    atLeast as bs = true ↔ value bs ≤ value as := by
  unfold atLeast
  rcases Nat.lt_trichotomy bs.length as.length with hlt | heq | hgt
  · simp [hlt, (ha.value_lt_of_length_lt hlt).le]
  · have hle : bs ≤ as ↔ value bs ≤ value as := by rw [← not_lt, lt_iff_value_lt heq.symm, not_lt]
    simp [heq, hle]
  · have hvalue := hb.value_lt_of_length_lt hgt
    simp [hgt.ne, not_lt.2 hgt.le, not_le.2 hvalue]

/-- The order of numerals as texts : by length, then by the first digits that differ. -/
def compareText (as bs : List Digit) : Ordering := (cmp as.length bs.length).then (cmp as bs)

theorem cmp_eq_cmp_value (h : as.length = bs.length) : cmp as bs = cmp (value as) (value bs) := by
  simp [cmp, cmpUsing, lt_iff_value_lt h, lt_iff_value_lt h.symm]

theorem compareText_eq (ha : Plain as ∨ as = [0]) (hb : Plain bs ∨ bs = [0]) :
    compareText as bs = cmp (value as) (value bs) := by
  -- a numeral that is longer than another one is not the zero
  have hlt : ∀ {as bs : List Digit}, (Plain as ∨ as = [0]) → (Plain bs ∨ bs = [0]) →
      as.length < bs.length → value as < value bs := by
    rintro as bs ha (hb | rfl) hlen
    · exact hb.value_lt_of_length_lt hlen
    · obtain rfl : as = [] := List.length_eq_zero_iff.1 (Nat.lt_one_iff.1 hlen)
      simp [Plain] at ha
  rcases Nat.lt_trichotomy as.length bs.length with h | h | h
  · rw [compareText, h.cmp_eq_lt, (hlt ha hb h).cmp_eq_lt]
    rfl
  · rw [compareText, h, cmp_self_eq_eq, cmp_eq_cmp_value h]
    rfl
  · rw [compareText, h.cmp_eq_gt, (hlt hb ha h).cmp_eq_gt]
    rfl

theorem eq_of_compareText (h : compareText as bs = .eq) : as = bs := by
  obtain ⟨hlen, htext⟩ := Ordering.then_eq_eq.1 h
  rw [cmp_eq_eq_iff] at hlen
  rw [cmp_eq_cmp_value hlen, cmp_eq_eq_iff] at htext
  exact value_inj hlen htext

/-- A numeral with zeros at its end, up to `k` digits. -/
def padRight (k : ℕ) (ds : List Digit) : List Digit := ds ++ List.replicate (k - ds.length) 0

theorem value_padRight (k : ℕ) (ds : List Digit) :
    value (padRight k ds) = value ds * 10 ^ (k - ds.length) := by
  have hzeros : ∀ n, value (List.replicate n 0) = 0 := by
    intro n
    induction n with
    | zero => rfl
    | succ n ih => rw [List.replicate_succ, value_cons, ih]; simp
  rw [padRight, value_append, hzeros, List.length_replicate, add_zero]

/-! ## Numerals of numbers -/

def digit (n : ℕ) : Digit := Fin.ofNat 10 n

/-- The numeral of a positive number; zero has no digits. -/
def ofNat (n : ℕ) : List Digit := ((Nat.digits 10 n).map digit).reverse

theorem value_ofNat (n : ℕ) : value (ofNat n) = n := by
  have hmap : (Nat.digits 10 n).map (Fin.val ∘ digit) = Nat.digits 10 n := by
    conv_rhs => rw [← List.map_id (Nat.digits 10 n)]
    refine List.map_congr_left fun d hd => ?_
    exact Nat.mod_eq_of_lt (Nat.digits_lt_base (by decide) hd)
  rw [value, ofNat, List.reverse_reverse, low, List.map_map, hmap, Nat.ofDigits_digits]

theorem plain_ofNat {n : ℕ} (h : n ≠ 0) : Plain (ofNat n) := by
  have hne : Nat.digits 10 n ≠ [] := Nat.digits_ne_nil_iff_ne_zero.2 h
  have hlast := Nat.getLast_digit_ne_zero 10 h
  have hlt := Nat.digits_lt_base (b := 10) (by decide) (List.getLast_mem hne)
  have hsplit : ofNat n = digit ((Nat.digits 10 n).getLast hne) ::
      ((Nat.digits 10 n).dropLast.map digit).reverse := by
    rw [ofNat]
    conv_lhs => rw [← List.dropLast_append_getLast hne]
    simp
  refine ⟨_, _, hsplit, fun hzero => hlast ?_⟩
  have hval := congrArg Fin.val hzero
  rwa [digit, Fin.val_ofNat, Nat.mod_eq_of_lt hlt] at hval

/-! ## Addition -/

def head (ds : List Digit) : ℕ := (ds.head?.map Fin.val).getD 0

theorem low_eq (ds : List Digit) : low ds = head ds + 10 * low ds.tail := by
  cases ds <;> simp [head]

/-- The last `k` digits of a sum, the least significant first. -/
def addLoop : ℕ → List Digit → List Digit → ℕ → List Digit
  | 0, _, _, _ => []
  | k + 1, as, bs, carry =>
    digit ((carry + head as + head bs) % 10) ::
      addLoop k as.tail bs.tail ((carry + head as + head bs) / 10)

def addDigits (as bs : List Digit) : List Digit :=
  trimLeft (addLoop (max as.length bs.length + 1) as.reverse bs.reverse 0).reverse

theorem low_addLoop : ∀ (k : ℕ) (as bs : List Digit) (carry : ℕ),
    low (addLoop k as bs carry) = (low as + low bs + carry) % 10 ^ k
  | 0, _, _, _ => by simp [addLoop, Nat.mod_one]
  | k + 1, as, bs, carry => by
    have ih := low_addLoop k as.tail bs.tail ((carry + head as + head bs) / 10)
    have hsum : low as + low bs + carry =
        (carry + head as + head bs) + 10 * (low as.tail + low bs.tail) := by
      rw [low_eq as, low_eq bs]
      ring
    rw [addLoop, low_cons, ih, hsum, pow_succ', Nat.mod_mul]
    have hdigit : (digit ((carry + head as + head bs) % 10) : ℕ) =
        (carry + head as + head bs) % 10 := Nat.mod_mod _ _
    rw [hdigit, Nat.add_mul_mod_self_left, Nat.add_mul_div_left _ _ (by decide)]
    congr 2
    congr 1
    ring

theorem value_addDigits (as bs : List Digit) : value (addDigits as bs) = value as + value bs := by
  have hle : ∀ ds, ds.length ≤ max as.length bs.length →
      value ds < 10 ^ max as.length bs.length := fun ds hds =>
    lt_of_lt_of_le (value_lt ds) (Nat.pow_le_pow_right (by decide) hds)
  have ha := hle as (le_max_left _ _)
  have hb := hle bs (le_max_right _ _)
  rw [addDigits, value_trimLeft, value, List.reverse_reverse, low_addLoop, Nat.add_zero]
  refine Nat.mod_eq_of_lt ?_
  change value as + value bs < _
  rw [pow_succ]
  omega

/-! ## Subtraction -/

/-- The digits of a difference, the least significant first. -/
def subtractLoop : List Digit → List Digit → ℕ → List Digit
  | [], _, _ => []
  | a :: as, bs, borrow =>
    if (a : ℕ) < borrow + head bs then
      digit (a + 10 - (borrow + head bs)) :: subtractLoop as bs.tail 1
    else digit (a - (borrow + head bs)) :: subtractLoop as bs.tail 0

/-- The zero of a difference is written with one digit. -/
def subtractDigits (as bs : List Digit) : List Digit :=
  match trimLeft (subtractLoop as.reverse bs.reverse 0).reverse with
  | [] => [0]
  | d :: ds => d :: ds

theorem head_lt (ds : List Digit) : head ds < 10 := by
  cases ds with
  | nil => decide
  | cons d ds => exact d.isLt

theorem low_subtractLoop : ∀ (as bs : List Digit) (borrow : ℕ), borrow ≤ 1 →
    low bs + borrow ≤ low as → low (subtractLoop as bs borrow) + (low bs + borrow) = low as
  | [], bs, borrow, _, h => by
    simp only [low_nil] at h
    simp only [subtractLoop, low_nil]
    omega
  | a :: as, bs, borrow, hborrow, h => by
    have hbs := low_eq bs
    have hhead := head_lt bs
    have ha := a.isLt
    rw [low_cons] at h ⊢
    rw [subtractLoop]
    split_ifs with hlt
    · have ih := low_subtractLoop as bs.tail 1 le_rfl (by omega)
      have hdigit : (digit (a + 10 - (borrow + head bs)) : ℕ) = a + 10 - (borrow + head bs) :=
        Nat.mod_eq_of_lt (by omega)
      rw [low_cons, hdigit]
      omega
    · have ih := low_subtractLoop as bs.tail 0 (by omega) (by omega)
      have hdigit : (digit (a - (borrow + head bs)) : ℕ) = a - (borrow + head bs) :=
        Nat.mod_eq_of_lt (by omega)
      rw [low_cons, hdigit]
      omega

theorem value_subtractDigits (h : value bs ≤ value as) :
    value (subtractDigits as bs) = value as - value bs := by
  have hloop := low_subtractLoop as.reverse bs.reverse 0 (by decide) h
  have htrim := value_trimLeft (subtractLoop as.reverse bs.reverse 0).reverse
  have hvalue : value (trimLeft (subtractLoop as.reverse bs.reverse 0).reverse) =
      value as - value bs := by
    have hlow : value (subtractLoop as.reverse bs.reverse 0).reverse =
        low (subtractLoop as.reverse bs.reverse 0) := by rw [value, List.reverse_reverse]
    change _ + (value bs + 0) = value as at hloop
    omega
  rw [← hvalue, subtractDigits]
  split
  · rename_i hnil
    rw [hnil]
    rfl
  · rename_i hcons
    rw [hcons]

/-- Without leading zeros, except for zero itself. -/
theorem plain_or_zero_subtractDigits (as bs : List Digit) :
    Plain (subtractDigits as bs) ∨ subtractDigits as bs = [0] := by
  rw [subtractDigits]
  split
  · exact .inr rfl
  · rename_i d ds hcons
    exact .inl (hcons ▸ plain_trimLeft (by rw [hcons]; nofun))

end Numerals
