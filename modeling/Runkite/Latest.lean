import Mathlib.Data.List.Basic

/-!
# The latest entry of a log

A log is a list that grows at its end. `latest p` is the last of its entries that satisfy `p`,
such as the entries under one key. The lemmas say what becomes of it when an entry is appended,
changed in place, or known to be the last of its kind.
-/

namespace Log

variable {α : Type*} (p : α → Bool)

/-- The last entry that satisfies `p`. -/
def latest (l : List α) : Option α := (l.filter p).getLast?

@[simp] theorem latest_nil : latest p [] = none := rfl

theorem latest_concat (l : List α) (a : α) :
    latest p (l ++ [a]) = if p a then some a else latest p l := by
  cases ha : p a <;> simp [latest, List.filter_append, ha]

variable {p} {l l' : List α} {a : α}

theorem latest_append_of_not (h : ∀ a ∈ l', p a = false) : latest p (l ++ l') = latest p l := by
  have hnil : l'.filter p = [] := List.filter_eq_nil_iff.2 fun a ha => by simp [h a ha]
  rw [latest, List.filter_append, hnil, List.append_nil, latest]

/-- An entry with no other of its kind after it. -/
theorem latest_append_cons (ha : p a) (h : ∀ b ∈ l', p b = false) :
    latest p (l ++ a :: l') = some a := by
  rw [← List.singleton_append, ← List.append_assoc, latest_append_of_not h, latest_concat,
    if_pos ha]

/-- An entry of another kind. -/
theorem latest_cons_of_not (ha : p a = false) : latest p (l ++ a :: l') = latest p (l ++ l') := by
  simp [latest, List.filter_append, ha]

/-- A scan from the end. -/
theorem find?_reverse (l : List α) : l.reverse.find? p = latest p l := by
  rw [← List.head?_filter, List.filter_reverse, List.head?_reverse, latest]

theorem latest_eq_none_iff {l : List α} : latest p l = none ↔ ∀ a ∈ l, p a = false := by
  simp [latest]

/-- The entry at an index, with no other of its kind after it. -/
theorem latest_of_getElem? {l : List α} {i : ℕ} (ha : l[i]? = some a) (hp : p a)
    (h : ∀ b ∈ l.drop (i + 1), p b = false) : latest p l = some a := by
  obtain ⟨_, rfl⟩ := List.getElem?_eq_some_iff.1 ha
  have hsplit : l = l.take i ++ l[i] :: l.drop (i + 1) := by
    rw [List.getElem_cons_drop, List.take_append_drop]
  exact (congrArg (latest p) hsplit).trans (latest_append_cons hp h)

theorem latest_map {f : α → α} (h : ∀ a, p (f a) = p a) (l : List α) :
    latest p (l.map f) = (latest p l).map f := by
  have hcomp : p ∘ f = p := funext h
  rw [latest, List.filter_map, hcomp, List.getLast?_map, latest]

end Log
