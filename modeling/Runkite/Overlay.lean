import Mathlib.Data.List.Induction
import Runkite.Latest

/-!
# Lists merged by key

`merge key l` keeps one entry for each key of `l` : where a key comes first its entry is appended,
and an entry that comes later takes the place of the one that is there. So the entry under a key is
the latest one of `l` (`find?_merge`).
-/

namespace Overlay

variable {α κ : Type*} [DecidableEq κ] (key : α → κ)

/-- Put an entry in the place of the one with its key, or at the end. -/
def add (out : List α) (a : α) : List α :=
  if out.any fun b => key b = key a then out.map fun b => if key b = key a then a else b
  else out ++ [a]

def merge (l : List α) : List α := l.foldl (add key) []

theorem merge_concat (l : List α) (a : α) : merge key (l ++ [a]) = add key (merge key l) a := by
  simp [merge]

/-- An update in place hits the first entry under the key. -/
theorem find?_replace (out : List α) (a : α) (k : κ) :
    (out.map fun b => if key b = key a then a else b).find? (fun b => key b = k) =
      if key a = k then out.find? (fun b => key b = k) |>.map fun _ => a
      else out.find? (fun b => key b = k) := by
  induction out with
  | nil => simp
  | cons b out ih =>
    rw [List.map_cons, List.find?_cons, ih, List.find?_cons]
    by_cases hb : key b = key a
    · rw [if_pos hb, hb]
      by_cases ha : key a = k <;> simp [ha]
    · rw [if_neg hb]
      by_cases ha : key a = k
      · have hne : ¬ key b = k := fun h => hb (h.trans ha.symm)
        simp [ha, hne]
      · rw [if_neg ha, if_neg ha]

theorem find?_add (out : List α) (a : α) (k : κ) : (add key out a).find? (fun b => key b = k) =
      if key a = k then some a else out.find? (fun b => key b = k) := by
  unfold add
  split_ifs with hany hk hk
  · rw [find?_replace, if_pos hk]
    obtain ⟨b, hb, hkey⟩ := List.any_eq_true.1 hany
    have hsome : (out.find? fun b => key b = k).isSome :=
      List.find?_isSome.2 ⟨b, hb, by simpa [hk] using hkey⟩
    obtain ⟨c, hc⟩ := Option.isSome_iff_exists.1 hsome
    rw [hc]
    rfl
  · rw [find?_replace, if_neg hk]
  · have hnone : out.find? (fun b => key b = k) = none := by
      rw [List.find?_eq_none]
      intro b hb hkey
      refine hany (List.any_eq_true.2 ⟨b, hb, ?_⟩)
      simpa [hk] using hkey
    simp [List.find?_append, hnone, hk]
  · simp [List.find?_append, hk]

/-- The entry under a key is the latest one. -/
theorem find?_merge (l : List α) (k : κ) :
    (merge key l).find? (fun b => key b = k) = Log.latest (fun b => key b = k) l := by
  induction l using List.reverseRecOn with
  | nil => rfl
  | append_singleton l a ih =>
    rw [merge_concat, find?_add, Log.latest_concat, ih]
    simp

variable {key}

theorem mem_add {out : List α} {a b : α} : b ∈ add key out a ↔ b = a ∨ b ∈ out ∧ key b ≠ key a := by
  unfold add
  split_ifs with hany
  · obtain ⟨c, hc, hkey⟩ := List.any_eq_true.1 hany
    rw [List.mem_map]
    constructor
    · rintro ⟨d, hd, rfl⟩
      split_ifs with h
      · exact .inl rfl
      · exact .inr ⟨hd, h⟩
    · rintro (rfl | ⟨hb, hne⟩)
      · exact ⟨c, hc, if_pos (by simpa using hkey)⟩
      · exact ⟨b, hb, if_neg hne⟩
  · have hnone : ∀ c ∈ out, key c ≠ key a := by simpa using hany
    grind

/-- What is merged is in if no entry with its key comes later. -/
theorem mem_merge_iff {l : List α} {a : α} : a ∈ merge key l ↔
    ∃ front back, l = front ++ a :: back ∧ ∀ b ∈ back, key b ≠ key a := by
  induction l using List.reverseRecOn with
  | nil => simp [merge]
  | append_singleton l b ih =>
    rw [merge_concat, mem_add, ih]
    constructor
    · rintro (rfl | ⟨⟨front, back, rfl, hback⟩, hne⟩)
      · exact ⟨l, [], rfl, by simp⟩
      · refine ⟨front, back ++ [b], by simp, fun c hc => ?_⟩
        rcases List.mem_append.1 hc with hc | hc
        · exact hback c hc
        · exact List.mem_singleton.1 hc ▸ hne.symm
    · rintro ⟨front, back, heq, hback⟩
      rcases back.eq_nil_or_concat with rfl | ⟨back, c, rfl⟩
      · exact .inl (List.append_inj_right' heq rfl |> List.singleton_inj.1).symm
      · have heq' : l ++ [b] = (front ++ a :: back) ++ [c] := by simpa using heq
        obtain ⟨rfl, hbc⟩ := List.append_inj' heq' rfl
        obtain rfl := List.singleton_inj.1 hbc
        refine .inr ⟨⟨front, back, rfl, fun d hd => hback d (by simp [hd])⟩, ?_⟩
        exact (hback b (by simp)).symm

theorem merge_eq_nil_iff {l : List α} : merge key l = [] ↔ l = [] := by
  constructor
  · intro h
    cases l using List.reverseRecOn with
    | nil => rfl
    | append_singleton l a =>
      have hmem : a ∈ merge key (l ++ [a]) := by
        rw [merge_concat, mem_add]
        exact .inl rfl
      rw [h] at hmem
      cases hmem
  · rintro rfl
    rfl

end Overlay
