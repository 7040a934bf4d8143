import Mathlib.Tactic.Linarith

/-!
# Runs of a labelled step function

A system is a step function `step : ℓ → σ → σ`, which is total : a label that a state does
not enable leaves it as it is. A run is the list of the labels taken, in the order of their
interleaving. `run` is the state it leads to, `Every` says that each step met a condition in
the state it was taken from, `count` counts the steps that did, and `total` adds up a quantity
over the steps.

`invariant` is the induction over runs, `invariant_of_step` its form for a property that every
step keeps, and `balance_le`, `balance_eq` and `balance_total` are for a quantity that some steps
add to and others take from.
-/

namespace Trace

variable {σ ℓ : Type*} (step : ℓ → σ → σ)

/-- The state after a run. -/
def run : List ℓ → σ → σ
  | [], s => s
  | l :: ls, s => run ls (step l s)

/-- Each step of the run meets the condition in the state it is taken from. -/
def Every (P : ℓ → σ → Prop) : List ℓ → σ → Prop
  | [], _ => True
  | l :: ls, s => P l s ∧ Every P ls (step l s)

/-- How many steps of the run meet the condition in the state they are taken from. -/
def count (p : ℓ → σ → Bool) : List ℓ → σ → ℕ
  | [], _ => 0
  | l :: ls, s => (p l s).toNat + count p ls (step l s)

/-- What the steps of the run amount to together. -/
def total (f : ℓ → σ → ℕ) : List ℓ → σ → ℕ
  | [], _ => 0
  | l :: ls, s => f l s + total f ls (step l s)

instance decidableEvery (P : ℓ → σ → Prop) [∀ l s, Decidable (P l s)] :
    ∀ ls s, Decidable (Every step P ls s)
  | [], _ => .isTrue trivial
  | l :: ls, s =>
    have := decidableEvery P ls (step l s)
    inferInstanceAs (Decidable (P l s ∧ Every step P ls (step l s)))

variable {step}

@[simp] theorem run_nil (s : σ) : run step [] s = s := rfl

@[simp] theorem run_cons (l : ℓ) (ls : List ℓ) (s : σ) :
    run step (l :: ls) s = run step ls (step l s) := rfl

@[simp] theorem count_nil (p : ℓ → σ → Bool) (s : σ) : count step p [] s = 0 := rfl

@[simp] theorem count_cons (p : ℓ → σ → Bool) (l : ℓ) (ls : List ℓ) (s : σ) :
    count step p (l :: ls) s = (p l s).toNat + count step p ls (step l s) := rfl

theorem run_append : ∀ (ls ls' : List ℓ) (s : σ),
    run step (ls ++ ls') s = run step ls' (run step ls s)
  | [], _, _ => rfl
  | l :: ls, ls', s => run_append ls ls' (step l s)

theorem count_append (p : ℓ → σ → Bool) : ∀ (ls ls' : List ℓ) (s : σ),
    count step p (ls ++ ls') s = count step p ls s + count step p ls' (run step ls s)
  | [], _, _ => (Nat.zero_add _).symm
  | l :: ls, ls', s => by
    simp [count_cons, run_cons, count_append p ls ls', Nat.add_assoc]

variable {P Q : ℓ → σ → Prop} {Inv : σ → Prop} {amount : σ → ℕ} {added taken : ℓ → σ → Bool}

theorem every_append : ∀ {ls ls' : List ℓ} {s : σ},
    Every step P (ls ++ ls') s ↔ Every step P ls s ∧ Every step P ls' (run step ls s)
  | [], _, _ => by simp [Every]
  | l :: ls, ls', s => by
    simp [Every, run_cons, every_append, and_assoc]

theorem every_of_imp (h : ∀ l s, P l s → Q l s) : ∀ {ls : List ℓ} {s : σ},
    Every step P ls s → Every step Q ls s
  | [], _, _ => trivial
  | l :: _, s, ⟨hl, hls⟩ => ⟨h l s hl, every_of_imp h hls⟩

/-- Steps that keep an invariant, and meet a condition because of it. -/
theorem every_of_invariant
    (hstep : ∀ l s, P l s → Inv s → Inv (step l s)) (h : ∀ l s, P l s → Inv s → Q l s) :
    ∀ {ls : List ℓ} {s : σ}, Every step P ls s → Inv s → Every step Q ls s
  | [], _, _, _ => trivial
  | l :: _, s, ⟨hl, hls⟩, hs =>
    ⟨h l s hl hs, every_of_invariant hstep h hls (hstep l s hl hs)⟩

theorem every_of_mem {Q : ℓ → Prop} : ∀ {ls : List ℓ} {s : σ}, (∀ l ∈ ls, Q l) →
    Every step (fun l _ => Q l) ls s
  | [], _, _ => trivial
  | l :: _, _, h =>
    ⟨h l List.mem_cons_self, every_of_mem fun l' hl' => h l' (List.mem_cons_of_mem l hl')⟩

theorem every_and : ∀ {ls : List ℓ} {s : σ}, Every step P ls s →
    Every step Q ls s → Every step (fun l s => P l s ∧ Q l s) ls s
  | [], _, _, _ => trivial
  | _ :: _, _, ⟨hP, hPs⟩, ⟨hQ, hQs⟩ => ⟨⟨hP, hQ⟩, every_and hPs hQs⟩

/-- A property that the steps of a run keep, kept by the run. -/
theorem invariant (hstep : ∀ l s, P l s → Inv s → Inv (step l s)) :
    ∀ {ls s}, Every step P ls s → Inv s → Inv (run step ls s)
  | [], _, _, hs => hs
  | l :: _, s, ⟨hl, hls⟩, hs =>
    invariant (s := step l s) hstep hls (hstep l s hl hs)

/-- A property that every step keeps. -/
theorem invariant_of_step (hstep : ∀ l s, Inv s → Inv (step l s)) :
    ∀ (ls : List ℓ) {s}, Inv s → Inv (run step ls s)
  | [], _, hs => hs
  | l :: ls, s, hs => invariant_of_step hstep ls (hstep l s hs)

/-- A quantity plus what was taken from it is at most what it was plus what was added. -/
theorem balance_le (hinv : ∀ l s, Inv s → Inv (step l s)) (hstep : ∀ l s, Inv s →
      amount (step l s) + (taken l s).toNat ≤ amount s + (added l s).toNat) :
    ∀ (ls : List ℓ) {s}, Inv s →
      amount (run step ls s) + count step taken ls s ≤ amount s + count step added ls s
  | [], _, _ => le_rfl
  | l :: ls, s, hs => by
    have hfirst := hstep l s hs
    have hrest := balance_le hinv hstep ls (hinv l s hs)
    simp only [run_cons, count_cons]
    omega

/-- A quantity that stays within a bound, of which nothing is lost but what is taken. -/
theorem balance_eq {bound : ℕ} (hinv : ∀ l s, P l s → Inv s → Inv (step l s))
    (hstep : ∀ l s, P l s → Inv s → amount s + (added l s).toNat ≤ bound →
      amount (step l s) + (taken l s).toNat = amount s + (added l s).toNat) :
    ∀ {ls : List ℓ} {s}, Every step P ls s → Inv s → amount s + count step added ls s ≤ bound →
      amount (run step ls s) + count step taken ls s = amount s + count step added ls s
  | [], _, _, _, _ => rfl
  | l :: ls, s, ⟨hl, hls⟩, hs, hbound => by
    simp only [run_cons, count_cons] at hbound ⊢
    have hfirst := hstep l s hl hs (by omega)
    have hrest := balance_eq hinv hstep hls (hinv l s hl hs) (by omega)
    omega

/-- A quantity that each step changes by what it adds and what it takes. -/
theorem balance_total {added taken : ℓ → σ → ℕ} (hinv : ∀ l s, P l s → Inv s → Inv (step l s))
    (hstep : ∀ l s, P l s → Inv s → amount (step l s) + taken l s = amount s + added l s) :
    ∀ {ls : List ℓ} {s}, Every step P ls s → Inv s →
      amount (run step ls s) + total step taken ls s = amount s + total step added ls s
  | [], _, _, _ => rfl
  | l :: ls, s, ⟨hl, hls⟩, hs => by
    have hfirst := hstep l s hl hs
    have hrest := balance_total hinv hstep hls (hinv l s hl hs)
    simp only [run_cons, total]
    omega

end Trace
