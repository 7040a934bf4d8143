import Mathlib.Data.List.DropRight

/-!
# Lists of segments as delimited texts

A list of segments is written as one text, with a delimiter between the segments and one more at each
end, and read back by taking the delimiters off the ends and cutting at the others. `unwrap_wrap_iff`
says which lists survive : those without the delimiter in a segment and without an empty segment at
an end. `wrap_eq_iff` says which lists share a text.
-/

namespace Delimited

variable {α : Type*} [BEq α] {d : α}

/-- The segments with the delimiter between them and around them. -/
def wrap (d : α) (ls : List (List α)) : List α := d :: ([d].intercalate ls ++ [d])

/-- A text without the delimiters at its ends. -/
def trim (d : α) (cs : List α) : List α := (cs.dropWhile (· == d)).rdropWhile (· == d)

/-- The segments of a text without the delimiters at its ends; an empty text has none. -/
def unwrap (d : α) (cs : List α) : List (List α) :=
  if (trim d cs).isEmpty then [] else (trim d cs).splitOn d

/-- The segments after a delimiter inside one of them has cut it. -/
def pieces (d : α) (ls : List (List α)) : List (List α) := ([d].intercalate ls).splitOn d

/-- No segment has the delimiter in it, and none at an end is empty. -/
structure Clean (d : α) (ls : List (List α)) : Prop where
  free : ∀ l ∈ ls, d ∉ l
  head : ls.head? ≠ some []
  last : ls.getLast? ≠ some []

omit [BEq α] in
theorem clean_nil : Clean d [] := ⟨by simp, by simp, by simp⟩

/-! ## Cutting at the delimiter -/

variable [LawfulBEq α] {ls : List (List α)}

theorem splitOn_append_cons (xs ys : List α) :
    (xs ++ d :: ys).splitOn d = xs.splitOn d ++ ys.splitOn d :=
  List.splitOnP_append_cons xs ys (beq_self_eq_true d)

theorem splitOn_cons_self (cs : List α) : (d :: cs).splitOn d = [] :: cs.splitOn d := by
  simpa using splitOn_append_cons [] cs

theorem splitOn_cons_of_ne {c : α} (hc : c ≠ d) (cs : List α) :
    (c :: cs).splitOn d = (cs.splitOn d).modifyHead (List.cons c) := by
  have hb : (c == d) = false := beq_eq_false_iff_ne.2 hc
  simp [List.splitOn, List.splitOnP_cons_eq_if_modifyHead, hb]

/-- No piece of a text that is cut at the delimiter contains it. -/
theorem not_mem_of_mem_splitOn : ∀ {cs l : List α}, l ∈ cs.splitOn d → d ∉ l
  | [], l, h => by
    have hl : l = [] := by simpa using h
    simp [hl]
  | c :: cs, l, h => by
    by_cases hc : c = d
    · rw [hc, splitOn_cons_self] at h
      rcases List.mem_cons.1 h with rfl | hl
      · exact List.not_mem_nil
      · exact not_mem_of_mem_splitOn hl
    · obtain ⟨r, _, hr⟩ := List.exists_cons_of_ne_nil (List.splitOn_ne_nil d cs)
      rw [splitOn_cons_of_ne hc, hr, List.modifyHead_cons] at h
      rcases List.mem_cons.1 h with rfl | hl
      · have hdr : d ∉ r := not_mem_of_mem_splitOn (hr ▸ List.mem_cons_self)
        exact List.not_mem_cons_of_ne_of_not_mem (Ne.symm hc) hdr
      · exact not_mem_of_mem_splitOn (hr ▸ List.mem_cons_of_mem r hl)

omit [BEq α] [LawfulBEq α] in
theorem intercalate_append : ∀ {as bs : List (List α)}, as ≠ [] → bs ≠ [] →
    [d].intercalate (as ++ bs) = [d].intercalate as ++ d :: [d].intercalate bs
  | [], _, h, _ => absurd rfl h
  | [a], b :: bs, _, _ => by simp [List.intercalate_cons_cons]
  | a :: a' :: as, bs, _, hb => by
    have ih : [d].intercalate (a' :: as ++ bs) = _ := intercalate_append (List.cons_ne_nil a' as) hb
    simp only [List.cons_append, List.intercalate_cons_cons] at ih ⊢
    rw [ih]
    simp

theorem clean_splitOn_iff (cs : List α) :
    Clean d (cs.splitOn d) ↔ cs ≠ [] ∧ cs.head? ≠ some d ∧ cs.getLast? ≠ some d := by
  constructor
  · intro h
    refine ⟨?_, ?_, ?_⟩
    · rintro rfl
      exact h.head (by simp)
    · intro hd
      obtain ⟨t, rfl⟩ := List.head?_eq_some_iff.1 hd
      exact h.head (by simp [splitOn_cons_self])
    · intro hd
      obtain ⟨t, rfl⟩ := List.getLast?_eq_some_iff.1 hd
      exact h.last (by simp [splitOn_append_cons])
  · rintro ⟨hne, hhead, hlast⟩
    refine ⟨fun l hl => not_mem_of_mem_splitOn hl, ?_, ?_⟩
    · obtain ⟨c, t, rfl⟩ := List.exists_cons_of_ne_nil hne
      have hc : c ≠ d := fun h => hhead (by simp [h])
      obtain ⟨r, _, hr⟩ := List.exists_cons_of_ne_nil (List.splitOn_ne_nil d t)
      simp [splitOn_cons_of_ne hc, hr]
    · intro hl
      obtain ⟨init, hi⟩ := List.getLast?_eq_some_iff.1 hl
      have hcs : [d].intercalate (init ++ [[]]) = cs := hi ▸ List.intercalate_splitOn d
      by_cases hin : init = []
      · exact hne (by simpa [hin] using hcs.symm)
      · exact hlast (by rw [← hcs, intercalate_append hin (by simp)]; simp)

/-! ## Round trip -/

theorem trim_head? (cs : List α) : (trim d cs).head? ≠ some d := by
  intro h
  obtain ⟨t, ht⟩ := List.head?_eq_some_iff.1 h
  obtain ⟨r, hr⟩ := List.rdropWhile_prefix (· == d) (cs.dropWhile (· == d))
  have hd : (cs.dropWhile (· == d)).head? = some d := by
    rw [← hr, show (cs.dropWhile (· == d)).rdropWhile (· == d) = d :: t from ht]
    rfl
  have hn := List.head?_dropWhile_not (· == d) cs
  simp [hd] at hn

theorem trim_getLast? (cs : List α) : (trim d cs).getLast? ≠ some d := by
  intro h
  have hne : trim d cs ≠ [] := fun hn => by simp [hn] at h
  have hl : ¬((trim d cs).getLast hne == d) :=
    List.rdropWhile_last_not (· == d) (cs.dropWhile (· == d)) hne
  rw [List.getLast?_eq_some_getLast hne, Option.some.injEq] at h
  exact hl (beq_iff_eq.2 h)

theorem trim_around {cs : List α} (hne : cs ≠ []) (hhead : cs.head? ≠ some d)
    (hlast : cs.getLast? ≠ some d) : trim d (d :: (cs ++ [d])) = cs := by
  obtain ⟨c, t, rfl⟩ := List.exists_cons_of_ne_nil hne
  have hc : (c == d) = false := beq_eq_false_iff_ne.2 fun h => hhead (by simp [h])
  have hdrop : (d :: (c :: t ++ [d])).dropWhile (· == d) = c :: t ++ [d] := by simp [hc]
  rw [trim, hdrop, List.rdropWhile_concat_pos (· == d) _ _ (beq_self_eq_true d),
    List.rdropWhile_eq_self_iff]
  intro hl hd
  exact hlast (by rw [List.getLast?_eq_some_getLast hl, eq_of_beq hd])

theorem clean_unwrap (cs : List α) : Clean d (unwrap d cs) := by
  unfold unwrap
  split_ifs with h
  · exact clean_nil
  · have hne : trim d cs ≠ [] := by simpa using h
    exact (clean_splitOn_iff _).2 ⟨hne, trim_head? cs, trim_getLast? cs⟩

/-- The lists that are read back as they were written. -/
theorem unwrap_wrap_iff (ls : List (List α)) : unwrap d (wrap d ls) = ls ↔ Clean d ls := by
  constructor
  · intro h
    exact h ▸ clean_unwrap (wrap d ls)
  · intro h
    by_cases hls : ls = []
    · subst hls
      simp [unwrap, wrap, trim]
    · -- The cut of the joined segments is the list itself, so the joined text has clean ends.
      have hsplit : ([d].intercalate ls).splitOn d = ls := List.splitOn_intercalate d h.free hls
      obtain ⟨hne, hhead, hlast⟩ := (clean_splitOn_iff _).1 (hsplit ▸ h)
      have htrim : trim d (wrap d ls) = [d].intercalate ls := trim_around hne hhead hlast
      rw [unwrap, htrim, if_neg (by simpa using hne), hsplit]

/-! ## Lists that share a text -/

theorem wrap_eq_iff (as bs : List (List α)) : wrap d as = wrap d bs ↔ pieces d as = pieces d bs := by
  constructor
  · intro h
    have hj : [d].intercalate as = [d].intercalate bs :=
      List.append_cancel_right (List.cons.inj h).2
    rw [pieces, pieces, hj]
  · intro h
    have hj : [d].intercalate as = [d].intercalate bs := by
      have hc := congrArg [d].intercalate h
      simpa [pieces, List.intercalate_splitOn] using hc
    rw [wrap, wrap, hj]

omit [BEq α] [LawfulBEq α] in
theorem mem_intercalate_iff {c : α} : ∀ {ls : List (List α)},
    c ∈ [d].intercalate ls ↔ (∃ l ∈ ls, c ∈ l) ∨ c = d ∧ 2 ≤ ls.length
  | [] => by simp
  | [l] => by simp
  | l :: l' :: ls => by
    have ih : c ∈ [d].intercalate (l' :: ls) ↔ _ := mem_intercalate_iff
    rw [List.intercalate_cons_cons, List.mem_append, List.mem_append, ih]
    by_cases hc : c = d
    · simp [hc]
    · simp [hc]

omit [BEq α] [LawfulBEq α] in
theorem mem_wrap_iff {c : α} : c ∈ wrap d ls ↔ c = d ∨ ∃ l ∈ ls, c ∈ l := by
  by_cases hc : c = d
  · simp [wrap, hc]
  · simp [wrap, mem_intercalate_iff, hc]

theorem pieces_of_free (hne : ls ≠ []) (h : ∀ l ∈ ls, d ∉ l) : pieces d ls = ls :=
  List.splitOn_intercalate d h hne

/-! ## What reading back keeps -/

section

variable {c : α} (hc : c ≠ d)
include hc

theorem count_trim (cs : List α) : (trim d cs).count c = cs.count c := by
  have hdrop : ∀ cs : List α, (cs.dropWhile (· == d)).count c = cs.count c := by
    intro cs
    induction cs with
    | nil => rfl
    | cons b cs ih =>
      rw [List.dropWhile_cons]
      split_ifs with hb
      · rw [ih, List.count_cons_of_ne fun h => hc (h.symm.trans (eq_of_beq hb))]
      · rfl
  rw [trim, List.rdropWhile, List.count_reverse, hdrop, List.count_reverse, hdrop]

theorem count_wrap : ∀ ls : List (List α), (wrap d ls).count c = ls.flatten.count c
  | [] => by simp [wrap, hc.symm]
  | [l] => by simp [wrap, hc.symm]
  | l :: l' :: ls => by
    have ih := count_wrap (l' :: ls)
    simp only [wrap, List.intercalate_cons_cons, List.count_cons_of_ne hc.symm, List.count_append,
      List.flatten_cons, List.count_nil] at ih ⊢
    omega

theorem count_unwrap (cs : List α) : (unwrap d cs).flatten.count c = cs.count c := by
  rw [← count_trim hc cs, ← count_wrap hc, unwrap]
  split_ifs with hempty
  · rw [List.isEmpty_iff.1 hempty]
    simp [wrap, hc.symm]
  · simp [wrap, List.intercalate_splitOn, hc.symm]

end

/-! ## Parts of a text -/

section

omit [BEq α] [LawfulBEq α]

/-- A text begins with its first segments and a delimiter. -/
theorem exists_wrap_append_right {as : List (List α)} (h : as ≠ []) (bs : List (List α)) :
    ∃ cs, wrap d (as ++ bs) = d :: ([d].intercalate as ++ d :: cs) := by
  by_cases hb : bs = []
  · exact ⟨[], by simp [wrap, hb]⟩
  · exact ⟨[d].intercalate bs ++ [d], by simp [wrap, intercalate_append h hb]⟩

/-- A text ends with a delimiter, its last segments and a delimiter. -/
theorem exists_wrap_append_left {bs : List (List α)} (h : bs ≠ []) (as : List (List α)) :
    ∃ cs, wrap d (as ++ bs) = cs ++ d :: ([d].intercalate bs ++ [d]) := by
  by_cases ha : as = []
  · exact ⟨[], by simp [wrap, ha]⟩
  · exact ⟨d :: [d].intercalate as, by simp [wrap, intercalate_append ha h]⟩

/-- Two lists are the same up to the first delimiter and after it. -/
theorem append_cons_inj : ∀ {as bs cs ds : List α}, d ∉ as → d ∉ bs →
    as ++ d :: cs = bs ++ d :: ds → as = bs ∧ cs = ds
  | [], [], _, _, _, _, h => ⟨rfl, (List.cons.inj h).2⟩
  | [], b :: bs, _, _, _, hb, h => absurd ((List.cons.inj h).1 ▸ List.mem_cons_self) hb
  | a :: as, [], _, _, ha, _, h => absurd ((List.cons.inj h).1 ▸ List.mem_cons_self) ha
  | a :: as, b :: bs, _, _, ha, hb, h => by
    obtain ⟨rfl, ht⟩ := List.cons.inj h
    obtain ⟨rfl, rfl⟩ := append_cons_inj (fun h => ha (List.mem_cons_of_mem a h))
      (fun h => hb (List.mem_cons_of_mem a h)) ht
    exact ⟨rfl, rfl⟩

end

section

variable {as bs : List (List α)} (has : as ≠ []) (hbs : bs ≠ []) (ha : ∀ a ∈ as, d ∉ a)
  (hb : ∀ b ∈ bs, d ∉ b)
include has hbs ha hb

theorem wrap_inj (h : wrap d as = wrap d bs) : as = bs := by
  rwa [wrap_eq_iff, pieces_of_free has ha, pieces_of_free hbs hb] at h

theorem wrap_isPrefix_iff : wrap d as <+: wrap d bs ↔ as <+: bs := by
  constructor
  · rintro ⟨t, ht⟩
    rcases List.eq_nil_or_concat t with rfl | ⟨t, c, rfl⟩
    · rw [List.append_nil] at ht
      exact wrap_inj has hbs ha hb ht ▸ List.prefix_refl as
    · -- The rest is cut on its own, after the delimiter that ends the first text.
      have hj : [d].intercalate as ++ d :: t = [d].intercalate bs := by
        have htail : ([d].intercalate as ++ d :: t) ++ [c] = [d].intercalate bs ++ [d] := by
          simpa [wrap] using ht
        exact (List.append_inj' htail rfl).1
      refine ⟨t.splitOn d, ?_⟩
      rw [← pieces_of_free hbs hb, pieces, ← hj, splitOn_append_cons, ← pieces, pieces_of_free has ha]
  · rintro ⟨post, rfl⟩
    obtain ⟨cs, hcs⟩ := @exists_wrap_append_right _ d as has post
    exact ⟨cs, by rw [hcs]; simp [wrap]⟩

theorem wrap_isSuffix_iff : wrap d as <:+ wrap d bs ↔ as <:+ bs := by
  constructor
  · rintro ⟨t, ht⟩
    cases t with
    | nil => exact wrap_inj has hbs ha hb ht ▸ List.suffix_refl as
    | cons c t =>
      have hj : t ++ d :: [d].intercalate as = [d].intercalate bs := by
        have htail : (t ++ d :: [d].intercalate as) ++ [d] = [d].intercalate bs ++ [d] := by
          rw [List.append_assoc]
          exact (List.cons.inj ht).2
        exact (List.append_inj' htail rfl).1
      refine ⟨t.splitOn d, ?_⟩
      rw [← pieces_of_free hbs hb, pieces, ← hj, splitOn_append_cons, ← pieces, pieces_of_free has ha]
  · rintro ⟨pre, rfl⟩
    obtain ⟨cs, hcs⟩ := @exists_wrap_append_left _ d as has pre
    exact ⟨cs, hcs.symm⟩

end

end Delimited
