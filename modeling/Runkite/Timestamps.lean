import Mathlib.Data.Nat.Digits.Lemmas
import Mathlib.Data.Prod.Lex
import Runkite.Strings

/-!
# Instants and their texts

An `Instant` is a reading of the UTC calendar and clock, to the nanosecond, and instants are ordered
by the nanoseconds that have passed (`elapsed`). `rfc3339Nano` is the text of an instant with the
fraction of its second at its shortest : without trailing zeros, and none at all at a whole second.

Texts are compared rune by rune. Up to the second the text has the order of time, since its fields
have a fixed width. After the second comes the fraction, and then `Z`, which is greater than any
digit and than the point : where the fraction of one instant goes on with the fraction of another, the
text of the earlier instant is the greater one. `text_lt_iff` is the law : texts have the order of
time, unless the instants are `Confused`.
-/

set_option linter.unusedSectionVars false

namespace Timestamps

/-! ## The order of texts -/

section Lex

variable {α : Type} [LinearOrder α]

theorem append_lt_append_iff {x y : List α} : ∀ {a b : List α}, a.length = b.length →
    (a ++ x < b ++ y ↔ a < b ∨ a = b ∧ x < y)
  | [], [], _ => by simp
  | a :: as, b :: bs, h => by
    have ih := @append_lt_append_iff x y as bs (Nat.succ.inj h)
    rw [List.cons_append, List.cons_append, List.cons_lt_cons_iff, ih, List.cons_lt_cons_iff,
      List.cons.injEq]
    tauto

/-- Neither list begins with the other. -/
def Apart (a b : List α) : Prop := ¬ a <+: b ∧ ¬ b <+: a

instance (a b : List α) : Decidable (Apart a b) := inferInstanceAs (Decidable (_ ∧ _))

theorem apart_cons {a b : α} {as bs : List α} :
    Apart (a :: as) (b :: bs) ↔ (a = b → Apart as bs) := by
  simp only [Apart, List.cons_prefix_cons]
  constructor
  · rintro h rfl
    exact ⟨fun hp => h.1 ⟨rfl, hp⟩, fun hp => h.2 ⟨rfl, hp⟩⟩
  · intro h
    exact ⟨fun hp => (h hp.1).1 hp.2, fun hp => (h hp.1.symm).2 hp.2⟩

/-- Lists that are apart are compared before either ends. -/
theorem append_lt_append_of_apart {x y : List α} : ∀ {a b : List α}, Apart a b →
    (a ++ x < b ++ y ↔ a < b)
  | [], _, h => absurd List.nil_prefix h.1
  | _ :: _, [], h => absurd List.nil_prefix h.2
  | a :: as, b :: bs, h => by
    rw [List.cons_append, List.cons_append, List.cons_lt_cons_iff, List.cons_lt_cons_iff]
    by_cases hab : a = b
    · rw [append_lt_append_of_apart (apart_cons.1 h hab)]
    · simp [hab]

/-- Before a rune that is greater than all of theirs, a list that goes on with another is the
smaller of the two. -/
theorem concat_lt_concat_iff {z : α} : ∀ {a b : List α}, (∀ c ∈ a, c < z) → (∀ c ∈ b, c < z) →
    (a ++ [z] < b ++ [z] ↔ if Apart a b then a < b else b < a)
  | [], [], _, _ => by simp [Apart]
  | [], b :: bs, _, hb => by
    have hbz := hb b List.mem_cons_self
    simp [Apart, List.cons_lt_cons_iff, hbz.le, hbz.ne']
  | a :: as, [], ha, _ => by
    have haz := ha a List.mem_cons_self
    simp [Apart, List.cons_lt_cons_iff, haz]
  | a :: as, b :: bs, ha, hb => by
    have ih := concat_lt_concat_iff (fun c hc => ha c (List.mem_cons_of_mem _ hc))
      (fun c hc => hb c (List.mem_cons_of_mem _ hc))
    rw [List.cons_append, List.cons_append, List.cons_lt_cons_iff, ih]
    by_cases hab : a = b
    · subst hab
      simp [apart_cons]
    · simp [apart_cons, List.cons_lt_cons_iff, hab]

end Lex

/-! ## Numerals of a fixed width -/

/-- The last `w` decimal digits of a number. -/
def pad : ℕ → ℕ → List Char
  | 0, _ => []
  | w + 1, n => pad w (n / 10) ++ [(n % 10).digitChar]

@[simp] theorem length_pad : ∀ w n : ℕ, (pad w n).length = w
  | 0, _ => rfl
  | w + 1, n => by simp [pad, length_pad w]

theorem digitChar_lt_iff : ∀ m < 10, ∀ n < 10, (m.digitChar < n.digitChar ↔ m < n) := by decide

theorem digitChar_inj : ∀ m < 10, ∀ n < 10, m.digitChar = n.digitChar → m = n := by decide

theorem pad_inj : ∀ {w m n : ℕ}, m < 10 ^ w → n < 10 ^ w → pad w m = pad w n → m = n
  | 0, m, n, hm, hn, _ => by simp at hm hn; omega
  | w + 1, m, n, hm, hn, h => by
    rw [pow_succ] at hm hn
    obtain ⟨hinit, hlast⟩ := List.append_inj' h rfl
    have hdiv : m / 10 = n / 10 := pad_inj (by omega) (by omega) hinit
    have hmod : m % 10 = n % 10 :=
      digitChar_inj _ (by omega) _ (by omega) (List.cons.inj hlast).1
    omega

/-- Numerals of one width have the order of their numbers. -/
theorem pad_lt_iff : ∀ {w m n : ℕ}, m < 10 ^ w → n < 10 ^ w → (pad w m < pad w n ↔ m < n)
  | 0, m, n, hm, hn => by simp at hm hn; simp [pad, hm, hn]
  | w + 1, m, n, hm, hn => by
    rw [pow_succ] at hm hn
    have hm' : m / 10 < 10 ^ w := by omega
    have hn' : n / 10 < 10 ^ w := by omega
    have hpad : pad w (m / 10) = pad w (n / 10) ↔ m / 10 = n / 10 :=
      ⟨pad_inj hm' hn', fun h => by rw [h]⟩
    rw [pad, pad, append_lt_append_iff (by simp), pad_lt_iff hm' hn', hpad,
      List.cons_lt_cons_iff, digitChar_lt_iff _ (by omega) _ (by omega)]
    simp only [List.not_lt_nil, and_false, or_false]
    omega

theorem isDigit_of_mem_pad : ∀ {w n : ℕ} {c : Char}, c ∈ pad w n → c.isDigit
  | 0, _, _, h => nomatch h
  | w + 1, n, c, h => by
    rcases List.mem_append.1 h with h | h
    · exact isDigit_of_mem_pad h
    · rw [List.mem_singleton.1 h]
      exact (by decide : ∀ d < 10, d.digitChar.isDigit) (n % 10) (by omega)

/-! ## Fractions -/

section Trim

variable {α : Type} [LinearOrder α] (z : α)

/-- Drop the `z`s at the end. -/
def trim : List α → List α
  | [] => []
  | c :: cs => if c = z ∧ trim cs = [] then [] else c :: trim cs

variable {z}

/-- Lists of one length keep their order when the least of their items is dropped from their
ends. -/
theorem trim_lt_trim_iff : ∀ {a b : List α}, a.length = b.length → (∀ c ∈ a, z ≤ c) →
    (∀ c ∈ b, z ≤ c) → (trim z a < trim z b ↔ a < b)
  | [], [], _, _, _ => Iff.rfl
  | a :: as, b :: bs, hlen, ha, hb => by
    have ih := trim_lt_trim_iff (Nat.succ.inj hlen) (fun c hc => ha c (List.mem_cons_of_mem _ hc))
      (fun c hc => hb c (List.mem_cons_of_mem _ hc))
    have haz := ha a List.mem_cons_self
    have hbz := hb b List.mem_cons_self
    rw [trim, trim, List.cons_lt_cons_iff, ← ih]
    by_cases hza : a = z ∧ trim z as = []
    · rw [if_pos hza, hza.1, hza.2]
      by_cases hzb : b = z ∧ trim z bs = []
      · simp [hzb.1, hzb.2]
      · rw [if_neg hzb]
        rcases hbz.lt_or_eq with hlt | rfl
        · simp [hlt]
        · obtain ⟨d, _, hd⟩ := List.exists_cons_of_ne_nil fun h => hzb ⟨rfl, h⟩
          simp [hd]
    · rw [if_neg hza]
      by_cases hzb : b = z ∧ trim z bs = []
      · simp [hzb.1, hzb.2, haz.not_gt]
      · rw [if_neg hzb, List.cons_lt_cons_iff]

theorem mem_of_mem_trim : ∀ {a : List α} {c : α}, c ∈ trim z a → c ∈ a
  | [], _, h => h
  | a :: as, c, h => by
    rw [trim] at h
    split_ifs at h
    · cases h
    · rcases List.mem_cons.1 h with rfl | h
      · exact List.mem_cons_self
      · exact List.mem_cons_of_mem _ (mem_of_mem_trim h)

end Trim

variable {c : Char}

theorem zero_le_of_isDigit (h : c.isDigit) : '0' ≤ c := by
  rw [Char.isDigit, Bool.and_eq_true, decide_eq_true_eq] at h
  exact h.1

theorem lt_Z_of_isDigit (h : c.isDigit) : c < 'Z' := by
  rw [Char.isDigit, Bool.and_eq_true, decide_eq_true_eq, decide_eq_true_eq] at h
  exact lt_of_le_of_lt (show c ≤ '9' from h.2) (by decide)

/-- The fraction of a second as it is printed : nothing at a whole second. -/
def fraction (nanos : ℕ) : List Char :=
  if nanos = 0 then [] else '.' :: trim '0' (pad 9 nanos)

variable {m n : ℕ}

theorem fraction_lt_iff (hm : m < 10 ^ 9) (hn : n < 10 ^ 9) : fraction m < fraction n ↔ m < n := by
  have hdigits : ∀ k, ∀ c ∈ pad 9 k, '0' ≤ c := fun _ c hc =>
    zero_le_of_isDigit (isDigit_of_mem_pad hc)
  unfold fraction
  by_cases h0 : m = 0
  · by_cases h1 : n = 0
    · simp [h0, h1]
    · simp [h0, h1, Nat.pos_of_ne_zero h1]
  · by_cases h1 : n = 0
    · simp [h0, h1]
    · rw [if_neg h0, if_neg h1, List.cons_lt_cons_iff,
        trim_lt_trim_iff (by simp) (hdigits m) (hdigits n), pad_lt_iff hm hn]
      simp

theorem lt_Z_of_mem_fraction {n : ℕ} : ∀ c ∈ fraction n, c < 'Z' := by
  intro c hc
  unfold fraction at hc
  split_ifs at hc
  · cases hc
  · rcases List.mem_cons.1 hc with rfl | hc
    · decide
    · exact lt_Z_of_isDigit (isDigit_of_mem_pad (mem_of_mem_trim hc))

/-! ## Years -/

/-- The digits of a year, at least four. -/
def yearDigits (n : ℕ) : List Char := if n < 10000 then pad 4 n else Nat.toDigits 10 n

/-- A year and the hyphen after it. -/
def yearText (year : ℤ) : List Char :=
  (if year < 0 then ['-'] else []) ++ (yearDigits year.natAbs ++ ['-'])

theorem isDigit_of_mem_yearDigits {n : ℕ} (h : c ∈ yearDigits n) : c.isDigit := by
  unfold yearDigits at h
  split_ifs at h
  · exact isDigit_of_mem_pad h
  · exact Nat.isDigit_of_mem_toDigits (by decide) (by decide) h

theorem ofDigitChars_pad : ∀ {w n : ℕ}, n < 10 ^ w → Nat.ofDigitChars 10 (pad w n) 0 = n
  | 0, n, h => by simp at h; simp [pad, h]
  | w + 1, n, h => by
    rw [pow_succ] at h
    have ih := @ofDigitChars_pad w (n / 10) (by omega)
    rw [Nat.ofDigitChars_eq_foldl] at ih ⊢
    rw [pad, List.foldl_append, ih, List.foldl_cons, List.foldl_nil]
    have hdigit := Nat.toNat_digitChar_sub_48_of_lt_ten (n := n % 10) (by omega)
    have h48 : '0'.toNat = 48 := rfl
    rw [h48, hdigit]
    omega

theorem ofDigitChars_yearDigits (n : ℕ) : Nat.ofDigitChars 10 (yearDigits n) 0 = n := by
  unfold yearDigits
  split_ifs with h
  · exact ofDigitChars_pad h
  · exact Nat.ofDigitChars_ten_toDigits

theorem hyphen_not_mem_yearDigits (n : ℕ) : '-' ∉ yearDigits n := fun h =>
  absurd (isDigit_of_mem_yearDigits h) (by decide)

theorem exists_yearDigits (n : ℕ) : ∃ d ds, yearDigits n = d :: ds ∧ d ≠ '-' := by
  have hne : yearDigits n ≠ [] := by
    unfold yearDigits
    split_ifs
    · exact List.ne_nil_of_length_pos (by simp)
    · exact Nat.toDigits_ne_nil
  obtain ⟨d, ds, hd⟩ := List.exists_cons_of_ne_nil hne
  refine ⟨d, ds, hd, ?_⟩
  rintro rfl
  exact hyphen_not_mem_yearDigits n (by simp [hd])

/-- No text of a year goes on with the text of another. -/
theorem eq_of_yearText_begins {y z : ℤ} (h : yearText y <+: yearText z) : y = z := by
  have hdigits : ∀ {m n : ℕ}, yearDigits m ++ ['-'] <+: yearDigits n ++ ['-'] → m = n := by
    rintro m n ⟨r, hr⟩
    rw [List.append_assoc, List.singleton_append] at hr
    have heq := (Delimited.append_cons_inj (hyphen_not_mem_yearDigits m)
      (hyphen_not_mem_yearDigits n) hr).1
    rw [← ofDigitChars_yearDigits m, heq, ofDigitChars_yearDigits]
  unfold yearText at h
  obtain ⟨d, _, hd, hne⟩ := exists_yearDigits y.natAbs
  obtain ⟨e, _, he, hne'⟩ := exists_yearDigits z.natAbs
  -- The sign is the first rune, and a digit is none.
  by_cases hy : y < 0
  · by_cases hz : z < 0
    · rw [if_pos hy, if_pos hz] at h
      have := hdigits (List.cons_prefix_cons.1 h).2
      omega
    · rw [if_pos hy, if_neg hz, he] at h
      exact absurd (List.cons_prefix_cons.1 h).1.symm hne'
  · by_cases hz : z < 0
    · rw [if_neg hy, if_pos hz, hd] at h
      exact absurd (List.cons_prefix_cons.1 h).1 hne
    · rw [if_neg hy, if_neg hz] at h
      have := hdigits h
      omega

theorem apart_yearText {y z : ℤ} (h : y ≠ z) : Apart (yearText y) (yearText z) :=
  ⟨fun hp => h (eq_of_yearText_begins hp), fun hp => h (eq_of_yearText_begins hp).symm⟩

/-! ## Instants -/

def isLeap (year : ℤ) : Bool := year % 4 = 0 && (year % 100 ≠ 0 || year % 400 = 0)

/-- The days of a month. -/
def daysIn (year : ℤ) (month : ℕ) : ℕ :=
  if month = 2 then (if isLeap year then 29 else 28)
  else if month = 4 ∨ month = 6 ∨ month = 9 ∨ month = 11 then 30
  else 31

/-- A reading of the calendar and the clock in UTC. -/
structure Instant where
  year : ℤ
  month : ℕ
  day : ℕ
  hour : ℕ
  minute : ℕ
  second : ℕ
  nanos : ℕ
  month_le : 1 ≤ month ∧ month ≤ 12
  day_le : 1 ≤ day ∧ day ≤ daysIn year month
  hour_lt : hour < 24
  minute_lt : minute < 60
  second_lt : second < 60
  nanos_lt : nanos < 10 ^ 9
deriving DecidableEq

namespace Instant

/-- The days of the years before a year, counted from the year 1. -/
def daysBeforeYear (year : ℤ) : ℤ :=
  365 * (year - 1) + (year - 1) / 4 - (year - 1) / 100 + (year - 1) / 400

/-- The days of the months before a month. -/
def daysBeforeMonth (year : ℤ) (month : ℕ) : ℕ :=
  ((List.range (month - 1)).map fun m => daysIn year (m + 1)).sum

/-- The days before this one. -/
def days (t : Instant) : ℤ :=
  daysBeforeYear t.year + daysBeforeMonth t.year t.month + (t.day - 1)

/-- The nanoseconds since the year 1 began. -/
def elapsed (t : Instant) : ℤ :=
  (((t.days * 24 + t.hour) * 60 + t.minute) * 60 + t.second) * 10 ^ 9 + t.nanos

/-! ### The order of time -/

theorem daysBeforeMonth_succ (year : ℤ) {month : ℕ} (h : 1 ≤ month) :
    daysBeforeMonth year (month + 1) = daysBeforeMonth year month + daysIn year month := by
  obtain ⟨m, rfl⟩ : ∃ m, month = m + 1 := ⟨month - 1, by omega⟩
  simp [daysBeforeMonth, List.range_succ]

/-- The months before another one are over when it begins. -/
theorem daysBeforeMonth_lt {year : ℤ} (hm : 1 ≤ m) (h : m < n) :
    daysBeforeMonth year m + daysIn year m ≤ daysBeforeMonth year n := by
  induction n, h using Nat.le_induction with
  | base => rw [daysBeforeMonth_succ year hm]
  | succ =>
    rw [daysBeforeMonth_succ year (by omega)]
    omega

theorem daysBeforeMonth_thirteen (year : ℤ) :
    daysBeforeMonth year 13 = if isLeap year then 366 else 365 := by
  unfold daysBeforeMonth daysIn
  cases isLeap year with
  | false | true => decide

theorem daysBeforeYear_succ (year : ℤ) :
    daysBeforeYear (year + 1) = daysBeforeYear year + daysBeforeMonth year 13 := by
  rw [daysBeforeMonth_thirteen]
  unfold daysBeforeYear
  by_cases h : isLeap year
  · rw [if_pos h]
    simp only [isLeap, Bool.and_eq_true, Bool.or_eq_true, decide_eq_true_eq] at h
    push_cast
    omega
  · rw [if_neg h]
    simp only [isLeap, Bool.and_eq_true, Bool.or_eq_true, decide_eq_true_eq] at h
    push_cast
    omega

/-- The years before another one are over when it begins. -/
theorem daysBeforeYear_lt {y z : ℤ} (h : y < z) :
    daysBeforeYear y + daysBeforeMonth y 13 ≤ daysBeforeYear z := by
  induction z, (show y + 1 ≤ z by omega) using Int.leInduction with
  | base => rw [daysBeforeYear_succ]
  | succ z hz ih =>
    rw [daysBeforeYear_succ]
    have := ih (by omega)
    omega

/-- The days of a year are within it. -/
theorem days_lt (t : Instant) :
    t.days < daysBeforeYear t.year + daysBeforeMonth t.year t.month + daysIn t.year t.month := by
  have := t.day_le
  unfold days
  omega

theorem le_days (t : Instant) :
    daysBeforeYear t.year + daysBeforeMonth t.year t.month ≤ t.days := by
  have := t.day_le
  unfold days
  omega

/-- The reading, from the year down. -/
def reading (t : Instant) : ℤ ×ₗ ℕ ×ₗ ℕ ×ₗ ℕ ×ₗ ℕ ×ₗ ℕ ×ₗ ℕ :=
  toLex (t.year, toLex (t.month, toLex (t.day, toLex (t.hour, toLex (t.minute,
    toLex (t.second, t.nanos))))))

theorem reading_injective : Function.Injective reading := by
  intro a b h
  cases a
  cases b
  simp only [reading, EmbeddingLike.apply_eq_iff_eq, Prod.mk.injEq] at h
  obtain ⟨rfl, rfl, rfl, rfl, rfl, rfl, rfl⟩ := h
  rfl

variable {a b : Instant}

theorem days_lt_of_year_lt (h : a.year < b.year) : a.days < b.days := by
  have hmonths : daysBeforeMonth a.year a.month + daysIn a.year a.month ≤
      daysBeforeMonth a.year 13 := by
    have := a.month_le
    exact daysBeforeMonth_lt this.1 (by omega)
  have hyear := daysBeforeYear_lt h
  have ha := a.days_lt
  have hb := b.le_days
  omega

theorem elapsed_lt_of_days_lt (h : a.days < b.days) : a.elapsed < b.elapsed := by
  have := a.hour_lt
  have := a.minute_lt
  have := a.second_lt
  have := a.nanos_lt
  unfold elapsed
  omega

theorem elapsed_lt_of_reading_lt (h : a.reading < b.reading) : a.elapsed < b.elapsed := by
  simp only [reading, Prod.Lex.toLex_lt_toLex] at h
  rcases h with h | ⟨hyear, h⟩
  · exact elapsed_lt_of_days_lt (days_lt_of_year_lt h)
  rcases h with h | ⟨hmonth, h⟩
  · have hmonths := @daysBeforeMonth_lt _ _ a.year a.month_le.1 h
    have ha := a.days_lt
    have hb := b.le_days
    rw [← hyear] at hb
    exact elapsed_lt_of_days_lt (by omega)
  have hdays : a.days - a.day = b.days - b.day := by
    unfold days
    rw [hyear, hmonth]
    omega
  have := a.hour_lt
  have := a.minute_lt
  have := a.second_lt
  have := a.nanos_lt
  unfold elapsed
  omega

theorem elapsed_lt_iff : a.elapsed < b.elapsed ↔ a.reading < b.reading := by
  refine ⟨fun h => ?_, elapsed_lt_of_reading_lt⟩
  rcases lt_trichotomy a.reading b.reading with hlt | heq | hgt
  · exact hlt
  · rw [reading_injective heq] at h
    exact absurd h (lt_irrefl _)
  · exact absurd (elapsed_lt_of_reading_lt hgt) h.not_gt

theorem elapsed_injective : Function.Injective elapsed := by
  intro a b h
  rcases lt_trichotomy a.reading b.reading with hlt | heq | hgt
  · exact absurd h (elapsed_lt_of_reading_lt hlt).ne
  · exact reading_injective heq
  · exact absurd h (elapsed_lt_of_reading_lt hgt).ne'

instance : LinearOrder Instant := LinearOrder.lift' elapsed elapsed_injective

theorem lt_iff_reading : a < b ↔ a.reading < b.reading := elapsed_lt_iff

/-! ### Texts -/

/-- The text of an instant in the layout `2006-01-02T15:04:05.999999999Z07:00`. -/
def rfc3339Nano (t : Instant) : String :=
  String.ofList (yearText t.year ++ (pad 2 t.month ++ '-' :: (pad 2 t.day ++ 'T' ::
    (pad 2 t.hour ++ ':' :: (pad 2 t.minute ++ ':' :: (pad 2 t.second ++
      (fraction t.nanos ++ ['Z'])))))))

theorem rfc3339Nano_ne_empty (t : Instant) : t.rfc3339Nano ≠ "" := by
  intro h
  have hlist := congrArg String.toList h
  rw [rfc3339Nano, String.toList_ofList] at hlist
  simp [yearText] at hlist

/-- The second of the instant, from the year down. -/
def toSecond (t : Instant) : ℤ × ℕ × ℕ × ℕ × ℕ × ℕ :=
  (t.year, t.month, t.day, t.hour, t.minute, t.second)

/-- Two instants whose texts are in the wrong order : their years are, or they are in the same
second and the fraction of one goes on with the fraction of the other. -/
def Confused (a b : Instant) : Prop :=
  a.year ≠ b.year ∧ (yearText a.year < yearText b.year ↔ b.year < a.year) ∨
    a.toSecond = b.toSecond ∧ a.nanos ≠ b.nanos ∧ ¬ Apart (fraction a.nanos) (fraction b.nanos)

instance (a b : Instant) : Decidable (Confused a b) := by
  unfold Confused
  infer_instance

theorem Confused.symm (h : Confused a b) : Confused b a := by
  rcases h with ⟨hne, h⟩ | ⟨hsec, hne, h⟩
  · refine .inl ⟨hne.symm, ?_⟩
    have hapart := apart_yearText hne
    have hdiff : yearText a.year ≠ yearText b.year := fun heq => hapart.1 (heq ▸ List.prefix_rfl)
    rcases lt_trichotomy (yearText a.year) (yearText b.year) with hlt | heq | hgt
    · have := h.1 hlt
      simp [hlt.not_gt, this.not_gt]
    · exact absurd heq hdiff
    · have := mt h.2 hgt.not_gt
      simp only [hgt, true_iff]
      omega
  · exact .inr ⟨hsec.symm, hne.symm, fun hap => h ⟨hap.2, hap.1⟩⟩

theorem not_confused_self (a : Instant) : ¬ Confused a a := by simp [Confused]

/-- A field of two digits before a separator. -/
theorem field_lt_iff (hm : m < 100) (hn : n < 100) {x y : List Char} (c : Char) :
    pad 2 m ++ c :: x < pad 2 n ++ c :: y ↔ m < n ∨ m = n ∧ x < y := by
  have hpad : pad 2 m = pad 2 n ↔ m = n := ⟨pad_inj hm hn, fun h => by rw [h]⟩
  rw [append_lt_append_iff (by simp), pad_lt_iff hm hn, hpad, List.cons_lt_cons_iff]
  simp

theorem month_day_lt (t : Instant) : t.month < 100 ∧ t.day < 100 := by
  have hmonth := t.month_le
  have hday := t.day_le
  have hdays : daysIn t.year t.month ≤ 31 := by
    unfold daysIn
    split_ifs <;> omega
  omega

/-- Instants of one year are compared field by field, and then by their fractions. -/
theorem rest_lt_iff (a b : Instant) :
    pad 2 a.month ++ '-' :: (pad 2 a.day ++ 'T' :: (pad 2 a.hour ++ ':' :: (pad 2 a.minute ++
        ':' :: (pad 2 a.second ++ (fraction a.nanos ++ ['Z']))))) <
      pad 2 b.month ++ '-' :: (pad 2 b.day ++ 'T' :: (pad 2 b.hour ++ ':' :: (pad 2 b.minute ++
        ':' :: (pad 2 b.second ++ (fraction b.nanos ++ ['Z']))))) ↔
    a.month < b.month ∨ a.month = b.month ∧ (a.day < b.day ∨ a.day = b.day ∧
      (a.hour < b.hour ∨ a.hour = b.hour ∧ (a.minute < b.minute ∨ a.minute = b.minute ∧
        (a.second < b.second ∨ a.second = b.second ∧
          if Apart (fraction a.nanos) (fraction b.nanos) then a.nanos < b.nanos
          else b.nanos < a.nanos)))) := by
  have hs : pad 2 a.second = pad 2 b.second ↔ a.second = b.second :=
    ⟨pad_inj (by have := a.second_lt; omega) (by have := b.second_lt; omega), fun h => by rw [h]⟩
  rw [field_lt_iff a.month_day_lt.1 b.month_day_lt.1, field_lt_iff a.month_day_lt.2
    b.month_day_lt.2, field_lt_iff (by have := a.hour_lt; omega) (by have := b.hour_lt; omega),
    field_lt_iff (by have := a.minute_lt; omega) (by have := b.minute_lt; omega),
    append_lt_append_iff (by simp), pad_lt_iff (by have := a.second_lt; omega)
    (by have := b.second_lt; omega), hs,
    concat_lt_concat_iff lt_Z_of_mem_fraction lt_Z_of_mem_fraction,
    fraction_lt_iff a.nanos_lt b.nanos_lt, fraction_lt_iff b.nanos_lt a.nanos_lt]

theorem lt_iff_of_year_ne (h : a.year ≠ b.year) : a < b ↔ a.year < b.year := by
  rw [lt_iff_reading]
  simp [reading, Prod.Lex.toLex_lt_toLex, h]

/-- Texts have the order of time, and the opposite order if the instants are confused. -/
theorem text_lt_iff (a b : Instant) :
    a.rfc3339Nano < b.rfc3339Nano ↔ if Confused a b then b < a else a < b := by
  rw [rfc3339Nano, rfc3339Nano, String.lt_iff_toList_lt, String.toList_ofList,
    String.toList_ofList]
  by_cases hyear : a.year = b.year
  · rw [hyear, append_lt_append_iff rfl, rest_lt_iff]
    by_cases hsec : a.toSecond = b.toSecond
    · -- Only the fractions are left to compare.
      simp only [toSecond, Prod.mk.injEq] at hsec
      obtain ⟨-, hmonth, hday, hhour, hminute, hsecond⟩ := hsec
      have hab : a < b ↔ a.nanos < b.nanos := by
        rw [lt_iff_reading]
        simp [reading, Prod.Lex.toLex_lt_toLex, hyear, hmonth, hday, hhour, hminute, hsecond]
      have hba : b < a ↔ b.nanos < a.nanos := by
        rw [lt_iff_reading]
        simp [reading, Prod.Lex.toLex_lt_toLex, hyear, hmonth, hday, hhour, hminute, hsecond]
      have hconfused : Confused a b ↔
          a.nanos ≠ b.nanos ∧ ¬ Apart (fraction a.nanos) (fraction b.nanos) := by
        simp [Confused, toSecond, hyear, hmonth, hday, hhour, hminute, hsecond]
      rw [hab, hba]
      simp only [hconfused, hmonth, hday, hhour, hminute, hsecond, lt_irrefl, false_or, true_and]
      by_cases hap : Apart (fraction a.nanos) (fraction b.nanos)
      · simp [hap]
      · by_cases hnanos : a.nanos = b.nanos
        · simp [hnanos]
        · simp [hap, hnanos]
    · have hnot : ¬ Confused a b := by
        rintro (⟨hne, -⟩ | ⟨heq, -⟩)
        · exact hne hyear
        · exact hsec heq
      rw [if_neg hnot, lt_iff_reading]
      simp only [toSecond, Prod.mk.injEq, hyear, true_and] at hsec
      simp only [reading, Prod.Lex.toLex_lt_toLex, hyear, lt_irrefl, false_or, true_and]
      tauto
  · rw [append_lt_append_of_apart (apart_yearText hyear), lt_iff_of_year_ne hyear,
      lt_iff_of_year_ne (Ne.symm hyear)]
    have hconfused : Confused a b ↔
        (yearText a.year < yearText b.year ↔ b.year < a.year) := by simp [Confused, toSecond, hyear]
    simp only [hconfused]
    by_cases h : yearText a.year < yearText b.year ↔ b.year < a.year
    · rw [if_pos h, h]
    · rw [if_neg h]
      have hyears : a.year < b.year ↔ ¬ b.year < a.year := by omega
      tauto

theorem rfc3339Nano_injective : Function.Injective rfc3339Nano := by
  intro a b h
  by_contra hne
  have hab := text_lt_iff a b
  have hba := text_lt_iff b a
  rw [h] at hab hba
  have hsymm : Confused b a ↔ Confused a b := ⟨Confused.symm, Confused.symm⟩
  simp only [hsymm, lt_irrefl, false_iff] at hab hba
  split_ifs at hab hba
  · exact hne (le_antisymm (not_lt.1 hab) (not_lt.1 hba))
  · exact hne (le_antisymm (not_lt.1 hba) (not_lt.1 hab))

/-- The same, for two instants of which one may be the other. -/
theorem text_le_iff (a b : Instant) :
    a.rfc3339Nano ≤ b.rfc3339Nano ↔ if Confused a b then b ≤ a else a ≤ b := by
  have hsymm : Confused b a ↔ Confused a b := ⟨Confused.symm, Confused.symm⟩
  rw [← not_lt, text_lt_iff]
  simp only [hsymm]
  split_ifs
  · exact not_lt
  · exact not_lt

end Instant

/-- A fraction of the first second of a year. -/
def newYear (nanos : ℕ) (h : nanos < 10 ^ 9) : Instant where
  year := 2026
  month := 1
  day := 1
  hour := 0
  minute := 0
  second := 0
  nanos := nanos
  month_le := by decide
  day_le := by decide
  hour_lt := by decide
  minute_lt := by decide
  second_lt := by decide
  nanos_lt := h

end Timestamps
