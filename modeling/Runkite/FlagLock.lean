import Mathlib.Data.Set.Subsingleton

/-!
# A lock that is a flag

A resource is guarded by a flag that anybody can read and write; nothing in the flag says who
raised it. `Lock κ` pairs the flag with the set of the parties that hold the resource by the
rules : a party becomes a holder by raising a lowered flag, may pass its place on to another
party, and stops being one by lowering the flag or because other holders remain.

A `Move` is a change of the lock. `stay`, `take`, `pass` and `release` follow the rules. The
other four break them in different ways : a holder that is gone with the flag still up
(`leak`), a flag that nobody raised (`raise`), a flag lowered under its holder (`lower`), a
holder that never took the flag (`intrude`).

`Exclusive` says that there is one holder at most, and none while the flag is down; it
survives the moves that do not lower or intrude. `Accounted` says that a raised flag has a
holder; it survives the moves that do not leak or raise.
-/

structure Lock (κ : Type*) where
  held : Prop
  holders : Set κ

namespace Lock

variable {κ : Type*}

inductive Kind where
  | stay
  | take
  | pass
  | release
  | leak
  | raise
  | lower
  | intrude
deriving DecidableEq

/-- What can happen to a lock, with the rule it follows or breaks. -/
inductive Move (l l' : Lock κ) : Kind → Prop where
  | stay (h : (l'.held ↔ l.held) ∨ l'.held ∧ l.holders.Nonempty) (hs : l'.holders = l.holders) :
    Move l l' .stay
  | take (k : κ) (h : ¬ l.held) (h' : l'.held) (hs : l'.holders = insert k l.holders) :
    Move l l' .take
  | pass (k k' : κ) (hk : k ∈ l.holders) (h : l'.held ↔ l.held)
    (hs : l'.holders = insert k' (l.holders \ {k})) : Move l l' .pass
  | release (k : κ) (hk : k ∈ l.holders) (hs : l'.holders = l.holders \ {k})
    (h : ¬ l'.held ∨ l'.holders.Nonempty) : Move l l' .release
  | leak (h : l'.held ↔ l.held) (hs : l'.holders ⊆ l.holders) : Move l l' .leak
  | raise (h : l'.held) (hs : l'.holders = l.holders) : Move l l' .raise
  | lower (h : ¬ l'.held) (hs : l'.holders = l.holders) : Move l l' .lower
  | intrude (k : κ) (h : l'.held ↔ l.held) (hs : l'.holders = insert k l.holders) :
    Move l l' .intrude

/-- One holder at most, and none while the flag is down. -/
structure Exclusive (l : Lock κ) : Prop where
  subsingleton : l.holders.Subsingleton
  held_of_mem : ∀ k ∈ l.holders, l.held

/-- A raised flag has a holder. -/
def Accounted (l : Lock κ) : Prop := l.held → l.holders.Nonempty

variable {l l' : Lock κ}

theorem Exclusive.move {k : Kind} (h : l.Exclusive) (hm : Move l l' k) (hlower : k ≠ .lower)
    (hintrude : k ≠ .intrude) : l'.Exclusive := by
  cases hm with
  | stay hheld hs =>
    refine ⟨hs ▸ h.subsingleton, fun k hk => ?_⟩
    rw [hs] at hk
    obtain heq | ⟨hup, -⟩ := hheld
    · exact heq.2 (h.held_of_mem k hk)
    · exact hup
  | take k hdown hup hs =>
    have hempty : l.holders = ∅ :=
      Set.eq_empty_of_forall_notMem fun k hk => hdown (h.held_of_mem k hk)
    refine ⟨?_, fun _ _ => hup⟩
    rw [hs, hempty]
    exact (insert_empty_eq k : insert k (∅ : Set κ) = {k}) ▸ Set.subsingleton_singleton
  | pass k k' hk heq hs =>
    have hrest : l.holders \ {k} = ∅ :=
      Set.eq_empty_of_forall_notMem fun j hj => hj.2 (h.subsingleton hj.1 hk)
    refine ⟨?_, fun _ _ => heq.2 (h.held_of_mem k hk)⟩
    rw [hs, hrest]
    exact (insert_empty_eq k' : insert k' (∅ : Set κ) = {k'}) ▸ Set.subsingleton_singleton
  | release k hk hs =>
    have hrest : l'.holders = ∅ := by
      rw [hs]
      exact Set.eq_empty_of_forall_notMem fun j hj => hj.2 (h.subsingleton hj.1 hk)
    exact ⟨hrest ▸ Set.subsingleton_empty, fun j hj => by simp [hrest] at hj⟩
  | leak heq hs =>
    exact ⟨h.subsingleton.anti hs, fun k hk => heq.2 (h.held_of_mem k (hs hk))⟩
  | raise hup hs => exact ⟨hs ▸ h.subsingleton, fun _ _ => hup⟩
  | lower => exact absurd rfl hlower
  | intrude => exact absurd rfl hintrude

theorem Accounted.move {k : Kind} (h : l.Accounted) (hm : Move l l' k) (hleak : k ≠ .leak)
    (hraise : k ≠ .raise) : l'.Accounted := by
  intro hup
  cases hm with
  | stay hheld hs =>
    rw [hs]
    obtain heq | ⟨-, hne⟩ := hheld
    · exact h (heq.1 hup)
    · exact hne
  | take k _ _ hs => exact ⟨k, hs ▸ Set.mem_insert k _⟩
  | pass k k' _ _ hs => exact ⟨k', hs ▸ Set.mem_insert k' _⟩
  | release k _ _ hor => exact hor.resolve_left (not_not_intro hup)
  | leak => exact absurd rfl hleak
  | raise => exact absurd rfl hraise
  | lower hdown => exact absurd hup hdown
  | intrude k _ hs => exact ⟨k, hs ▸ Set.mem_insert k _⟩

end Lock
