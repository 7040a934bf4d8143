import Mathlib.Data.List.Basic

/-!
# Codes that can be read back

A code is self-delimiting if what follows a code word does not matter to its end, so that two texts
that begin with code words are equal only if the words and the rests are. A code whose words are
runs of certain letters is delimited by any other letter (`Stops`).
-/

namespace SelfDelimiting

variable {α χ : Type*}

/-- Words that can be cut off the front of a text in one way only. -/
def Code (enc : α → List χ) : Prop :=
  ∀ a b s t, enc a ++ s = enc b ++ t → a = b ∧ s = t

/-- A code that is decoded from the front is self-delimiting. -/
theorem code_of_decode {enc : α → List χ} (dec : List χ → Option (α × List χ))
    (h : ∀ a s, dec (enc a ++ s) = some (a, s)) : Code enc := by
  intro a b s t heq
  have hdec := h a s
  rw [heq, h b t] at hdec
  exact ⟨(Prod.mk.inj (Option.some.inj hdec)).1.symm, (Prod.mk.inj (Option.some.inj hdec)).2.symm⟩

/-- Words up to a closing letter, with which none of them begins. -/
theorem Code.flatMap_close {enc : α → List χ} {close : χ} (h : Code enc)
    (hopen : ∀ a s t, enc a ++ s ≠ close :: t) : ∀ (as bs : List α) (s t : List χ),
    as.flatMap enc ++ close :: s = bs.flatMap enc ++ close :: t → as = bs ∧ s = t
  | [], [], _, _, heq => ⟨rfl, (List.cons.inj heq).2⟩
  | [], b :: bs, s, t, heq => by
    rw [List.flatMap_cons, List.append_assoc] at heq
    exact absurd heq.symm (hopen _ _ _)
  | a :: as, [], s, t, heq => by
    rw [List.flatMap_cons, List.append_assoc] at heq
    exact absurd heq (hopen _ _ _)
  | a :: as, b :: bs, s, t, heq => by
    rw [List.flatMap_cons, List.flatMap_cons, List.append_assoc, List.append_assoc] at heq
    obtain ⟨rfl, hrest⟩ := h a b _ _ heq
    obtain ⟨rfl, rfl⟩ := Code.flatMap_close h hopen as bs s t hrest
    exact ⟨rfl, rfl⟩

/-- The text does not go on with one of the letters. -/
def Stops (p : χ → Prop) (s : List χ) : Prop := ∀ c s', s = c :: s' → ¬ p c

theorem stops_nil (p : χ → Prop) : Stops p [] := nofun

theorem stops_cons {p : χ → Prop} {c : χ} (s : List χ) (h : ¬ p c) : Stops p (c :: s) := by
  intro c' s' heq
  obtain ⟨rfl, -⟩ := List.cons.inj heq
  exact h

/-- Runs of letters up to where they stop. -/
theorem eq_of_append_stops {p : χ → Prop} : ∀ {as bs s t : List χ}, (∀ a ∈ as, p a) →
    (∀ b ∈ bs, p b) → Stops p s → Stops p t → as ++ s = bs ++ t → as = bs ∧ s = t
  | [], [], _, _, _, _, _, _, heq => ⟨rfl, heq⟩
  | [], b :: bs, _, _, _, hb, hs, _, heq => absurd (hb b List.mem_cons_self) (hs b _ heq)
  | a :: as, [], _, _, ha, _, _, ht, heq => absurd (ha a List.mem_cons_self) (ht a _ heq.symm)
  | a :: as, b :: bs, _, _, ha, hb, hs, ht, heq => by
    obtain ⟨rfl, hrest⟩ := List.cons.inj heq
    obtain ⟨rfl, rfl⟩ := eq_of_append_stops (fun x hx => ha x (List.mem_cons_of_mem _ hx))
      (fun x hx => hb x (List.mem_cons_of_mem _ hx)) hs ht hrest
    exact ⟨rfl, rfl⟩

end SelfDelimiting
