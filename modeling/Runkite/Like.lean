import Mathlib
import Runkite.OpaqueCheckpoints

/-!
# Pattern matching in SQLite

`sqlLike pattern text` is `text LIKE pattern` without an escape character. A pattern matches every text
that it spells (`catches_self`), so a pattern built from a text finds that text. It finds others when a
character of it is a wildcard or a letter (`exists_catches`), and otherwise it finds exactly
the texts that begin, or end, with it (`sqlLike_concat_percent`, `sqlLike_percent_cons`).

SQLite leaves the result open for texts with a NUL character; here it is a character like any other.
-/

namespace Runkite

/-- A character that a pattern does not take literally : a wildcard, or a letter, whose case does not
matter. -/
def Loose (a : Char) : Prop := a = '%' ∨ a = '_' ∨ a.isAlpha = true

instance (a : Char) : Decidable (Loose a) := inferInstanceAs (Decidable (_ ∨ _ ∨ _))

/-! ## One character -/

theorem sqlLike_cons (a : Char) (pattern text : List Char) : sqlLike (a :: pattern) text =
      if a = '%' then text.tails.any (sqlLike pattern)
      else
        match text with
        | [] => false
        | c :: text => (a = '_' || a.toLower = c.toLower) && sqlLike pattern text := by
  refine (sqlLike.eq_def (a :: pattern) text).trans ?_
  cases text <;> rfl

theorem sqlLike_percent (pattern text : List Char) :
    sqlLike ('%' :: pattern) text ↔ ∃ pre suf, text = pre ++ suf ∧ sqlLike pattern suf := by
  rw [sqlLike_cons, if_pos rfl, List.any_eq_true]
  constructor
  · rintro ⟨suf, hmem, hlike⟩
    obtain ⟨pre, hpre⟩ := (List.mem_tails suf text).1 hmem
    exact ⟨pre, suf, hpre.symm, hlike⟩
  · rintro ⟨pre, suf, rfl, hlike⟩
    exact ⟨suf, (List.mem_tails _ _).2 (List.suffix_append pre suf), hlike⟩

variable {a : Char}

theorem sqlLike_cons_cons (ha : a ≠ '%') (pattern : List Char) (c : Char) (text : List Char) :
    sqlLike (a :: pattern) (c :: text) ↔
      (a = '_' ∨ a.toLower = c.toLower) ∧ sqlLike pattern text := by
  rw [sqlLike_cons, if_neg ha]
  simp

theorem toLower_eq_iff {a c : Char} (ha : ¬a.isAlpha) : a.toLower = c.toLower ↔ a = c := by
  constructor
  · intro h
    have hc : ¬c.isAlpha := by
      rwa [← Char.isAlpha_toLower_eq_isAlpha, ← h, Char.isAlpha_toLower_eq_isAlpha]
    rwa [Char.toLower_eq_of_not_isUpper fun hu => ha (by simp [Char.isAlpha, hu]),
      Char.toLower_eq_of_not_isUpper fun hu => hc (by simp [Char.isAlpha, hu])] at h
  · exact congrArg Char.toLower

/-- A character that is not loose matches only itself. -/
theorem sqlLike_cons_of_not_loose (ha : ¬Loose a) (pattern text : List Char) :
    sqlLike (a :: pattern) text ↔ ∃ t, text = a :: t ∧ sqlLike pattern t := by
  simp only [Loose, not_or] at ha
  cases text with
  | nil =>
    rw [sqlLike_cons, if_neg ha.1]
    simp
  | cons c t =>
    rw [sqlLike_cons_cons ha.1, toLower_eq_iff ha.2.2, or_iff_right ha.2.1]
    constructor
    · rintro ⟨rfl, ht⟩
      exact ⟨t, rfl, ht⟩
    · rintro ⟨t', heq, ht⟩
      obtain ⟨rfl, rfl⟩ := List.cons.inj heq
      exact ⟨rfl, ht⟩

/-! ## Literal patterns -/

theorem sqlLike_append_literal : ∀ {lit : List Char}, (∀ a ∈ lit, ¬Loose a) → ∀ pattern text,
    sqlLike (lit ++ pattern) text ↔ ∃ t, text = lit ++ t ∧ sqlLike pattern t
  | [], _, _, _ => by simp
  | a :: lit, h, pattern, text => by
    rw [List.cons_append, sqlLike_cons_of_not_loose (h a List.mem_cons_self)]
    have ih := @sqlLike_append_literal lit (fun b hb => h b (List.mem_cons_of_mem a hb)) pattern
    constructor
    · rintro ⟨t, rfl, ht⟩
      obtain ⟨t', rfl, ht'⟩ := (ih t).1 ht
      exact ⟨t', rfl, ht'⟩
    · rintro ⟨t, rfl, ht⟩
      exact ⟨lit ++ t, rfl, (ih _).2 ⟨t, rfl, ht⟩⟩

section

variable {lit : List Char} (h : ∀ a ∈ lit, ¬Loose a) (text : List Char)
include h

/-- A literal pattern with `%` after it finds the texts that begin with it. -/
theorem sqlLike_concat_percent : sqlLike (lit ++ ['%']) text ↔ lit <+: text := by
  rw [sqlLike_append_literal h]
  constructor
  · rintro ⟨t, rfl, -⟩
    exact List.prefix_append lit t
  · rintro ⟨t, rfl⟩
    exact ⟨t, rfl, (sqlLike_percent [] t).2 ⟨t, [], by simp, rfl⟩⟩

/-- A literal pattern with `%` before it finds the texts that end with it. -/
theorem sqlLike_percent_cons : sqlLike ('%' :: lit) text ↔ lit <:+ text := by
  rw [sqlLike_percent]
  constructor
  · rintro ⟨pre, suf, rfl, hlike⟩
    obtain ⟨t, rfl, ht⟩ := (sqlLike_append_literal h [] suf).1 (by rwa [List.append_nil])
    rw [List.isEmpty_iff.1 ht, List.append_nil]
    exact List.suffix_append pre lit
  · rintro ⟨pre, rfl⟩
    refine ⟨pre, lit, rfl, ?_⟩
    have hlit := (sqlLike_append_literal h [] lit).2 ⟨[], by simp, rfl⟩
    rwa [List.append_nil] at hlit

end

/-! ## Loose patterns -/

/-- The pattern `lit` matches the text `other`, whatever follows the two. -/
def Catches (lit other : List Char) : Prop :=
  ∀ {pattern text}, sqlLike pattern text = true → sqlLike (lit ++ pattern) (other ++ text) = true

/-- A text matches itself as a pattern. -/
theorem catches_self : ∀ u, Catches u u
  | [], _, _, h => h
  | a :: u, pattern, text, h => by
    have ih := catches_self u h
    by_cases ha : a = '%'
    · subst ha
      exact (sqlLike_percent _ _).2 ⟨['%'], u ++ text, rfl, ih⟩
    · exact (sqlLike_cons_cons ha _ a _).2 ⟨.inr rfl, ih⟩

/-- A loose character matches another one too. -/
theorem exists_ne_of_loose (h : Loose a) : ∃ b, b ≠ a ∧ Catches [a] [b] := by
  rcases h with rfl | rfl | halpha
  · exact ⟨'x', by decide, fun {pattern text} ht => (sqlLike_percent pattern _).2 ⟨['x'], text, rfl, ht⟩⟩
  · exact ⟨'x', by decide, fun ht => (sqlLike_cons_cons (by decide) _ _ _).2 ⟨.inl rfl, ht⟩⟩
  · have hpercent : a ≠ '%' := by
      rintro rfl
      exact absurd halpha (by decide)
    have hswap : ∃ b, b ≠ a ∧ a.toLower = b.toLower := by
      by_cases hu : a.isUpper
      · refine ⟨a.toLower, fun heq => ?_, by simp⟩
        have hnot := Char.isUpper_toLower_eq_false a
        rw [heq, hu] at hnot
        cases hnot
      · have hl : a.isLower := by simpa [Char.isAlpha, hu] using halpha
        refine ⟨a.toUpper, fun heq => ?_, by simp⟩
        have hnot := Char.isLower_toUpper_eq_false a
        rw [heq, hl] at hnot
        cases hnot
    obtain ⟨b, hba, hlower⟩ := hswap
    exact ⟨b, hba, fun ht => (sqlLike_cons_cons hpercent _ _ _).2 ⟨.inr hlower, ht⟩⟩

/-- A pattern that is not literal matches another text of the same length too. -/
theorem exists_catches {lit : List Char} (h : ¬∀ a ∈ lit, ¬Loose a) :
    ∃ other, Catches lit other ∧ other ≠ lit ∧ other.length = lit.length := by
  simp only [not_forall, not_not] at h
  obtain ⟨a, ha, hloose⟩ := h
  obtain ⟨us, vs, rfl⟩ := List.append_of_mem ha
  obtain ⟨b, hne, hcatches⟩ := exists_ne_of_loose hloose
  refine ⟨us ++ b :: vs, fun {pattern text} ht => ?_, ?_, by simp⟩
  · rw [List.append_assoc, List.append_assoc]
    exact catches_self us (hcatches (catches_self vs ht))
  · simpa using hne

end Runkite
