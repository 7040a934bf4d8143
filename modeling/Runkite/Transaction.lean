import Mathlib.Logic.Basic

/-!
# Transactions whose statements may fail

A `Body` is a sequence of statements over a database state `σ`, each of which reads and
writes the working copy or fails with an error of its own. `Body.run` executes it against
a list of faults : the `i`-th entry says whether the driver makes the `i`-th statement fail
whatever it would have done. `transact` adds the two ends : `BEGIN` may fail, an error or
a result that is not to be kept rolls back, and `COMMIT` may fail or succeed without its
acknowledgement arriving.

`transact_cases` : the durable state is the old one or the state a fault-free run of the whole body
reaches.
-/

namespace Transaction

variable {σ ε α β : Type}

/-! ## Bodies -/

/-- A transaction body : a tree of statements. -/
inductive Body (σ ε : Type) (α : Type) : Type 1 where
  | done (a : α)
  | fail (e : ε)
  | statement {β : Type} (run : σ → Except ε (β × σ)) (next : β → Body σ ε α)

namespace Body

def bind : Body σ ε α → (α → Body σ ε β) → Body σ ε β
  | done a, k => k a
  | fail e, _ => fail e
  | statement f next, k => statement f fun b => (next b).bind k

instance : Monad (Body σ ε) where
  pure := done
  bind := bind

/-- Execute a body on a working copy. Statements beyond the list of faults run. -/
def run : Body σ ε α → List (Option ε) → σ → Except ε (α × σ)
  | done a, _, s => .ok (a, s)
  | fail e, _, _ => .error e
  | statement f next, faults, s =>
    match faults.head?.join with
    | some e => .error e
    | none =>
      match f s with
      | .error e => .error e
      | .ok (b, s') => (next b).run faults.tail s'

end Body

/-- A statement that reads. -/
def select (f : σ → Except ε α) : Body σ ε α :=
  .statement (fun s => (f s).map fun a => (a, s)) .done

/-- A statement that writes. -/
def exec (f : σ → σ) : Body σ ε Unit := .statement (fun s => .ok ((), f s)) .done

/-- A statement that writes unless a constraint of the schema refuses it. -/
def execChecked (f : σ → Except ε σ) : Body σ ε Unit :=
  .statement (fun s => (f s).map fun s' => ((), s')) .done

/-- An error raised by the code around the statements. -/
def raise (e : ε) : Body σ ε α := .fail e

/-! ## Fault-free execution -/

namespace Body

variable {s s' : σ} {m : Body σ ε α} {faults : List (Option ε)}

@[simp] theorem run_pure_ok {a b : α} :
    (pure a : Body σ ε α).run [] s = .ok (b, s') ↔ a = b ∧ s = s' := by
  change Except.ok (a, s) = Except.ok (b, s') ↔ _
  simp

@[simp] theorem run_raise_ok {e : ε} {a : α} :
    ¬ (raise e : Body σ ε α).run [] s = .ok (a, s') := fun h => nomatch h

@[simp] theorem run_select_ok {f : σ → Except ε α} {a : α} :
    (select f).run [] s = .ok (a, s') ↔ f s = .ok a ∧ s = s' := by
  simp only [select, run, List.head?_nil, Option.join_none]
  cases f s <;> simp [Except.map]

@[simp] theorem run_exec_ok {f : σ → σ} {u : Unit} :
    (exec f : Body σ ε Unit).run [] s = .ok (u, s') ↔ f s = s' := by simp [exec, run]

@[simp] theorem run_execChecked_ok {f : σ → Except ε σ} {u : Unit} :
    (execChecked f).run [] s = .ok (u, s') ↔ f s = .ok s' := by
  simp only [execChecked, run, List.head?_nil, Option.join_none]
  cases f s <;> simp [Except.map]

theorem run_bind (m : Body σ ε α) (k : α → Body σ ε β) (s : σ) :
    (m >>= k).run [] s = (m.run [] s).bind fun r => (k r.1).run [] r.2 := by
  induction m generalizing s with
  | done | fail => rfl
  | statement f next ih =>
    change (statement f fun b => (next b).bind k).run [] s = _
    simp only [run, List.head?_nil, Option.join_none, List.tail_nil]
    cases f s with
    | error => rfl
    | ok r => exact ih r.1 r.2

/-- A body that succeeds has its first part succeed, and the rest from where that stopped. -/
@[simp] theorem run_bind_ok {k : α → Body σ ε β} {b : β} : (m >>= k).run [] s = .ok (b, s') ↔
      ∃ a t, m.run [] s = .ok (a, t) ∧ (k a).run [] t = .ok (b, s') := by
  rw [run_bind]
  cases m.run [] s with
  | error => simp [Except.bind]
  | ok r =>
    obtain ⟨a, t⟩ := r
    constructor
    · exact fun h => ⟨a, t, rfl, h⟩
    · rintro ⟨_, _, h, hk⟩
      cases h
      exact hk

/-- Faults only turn success into failure. -/
theorem run_eq_of_run_faults {r : α × σ} (h : m.run faults s = .ok r) : m.run [] s = .ok r := by
  induction m generalizing faults s with
  | done | fail => exact h
  | statement f next ih =>
    simp only [run] at h
    split at h
    · cases h
    · split at h
      · cases h
      · rename_i b s' hf
        simp only [run, List.head?_nil, Option.join_none, hf]
        exact ih b h

end Body

/-! ## Begin, commit and rollback -/

/-- How a commit ends : durably, not at all, or durably with the acknowledgement lost. -/
inductive Commit (ε : Type) where
  | done
  | failed (e : ε)
  | unacknowledged (e : ε)

/-- What the driver does to one transaction. -/
structure Driver (ε : Type) where
  refused : Option ε := none
  faults : List (Option ε) := []
  commit : Commit ε := .done

/-- A driver that lets everything through. -/
def Driver.sound (ε : Type) : Driver ε := {}

/-- Nothing that took effect is reported as failed. -/
def Commit.acknowledged : Commit ε → Bool
  | .unacknowledged _ => false
  | _ => true

/-- The driver refuses nothing, fails no statement and acknowledges the commit. -/
def Driver.clean (d : Driver ε) : Bool :=
  d.refused.isNone && d.faults.all Option.isNone &&
    match d.commit with
    | .done => true
    | _ => false

/-- Run a body in a transaction. The second component is the durable state afterwards; a
result for which `keep` is false is returned from a transaction that is rolled back. -/
def transact (body : Body σ ε α) (keep : α → Bool) (driver : Driver ε) (s : σ) :
    Except ε α × σ :=
  match driver.refused with
  | some e => (.error e, s)
  | none =>
    match body.run driver.faults s with
    | .error e => (.error e, s)
    | .ok (a, s') =>
      if keep a then
        match driver.commit with
        | .done => (.ok a, s')
        | .failed e => (.error e, s)
        | .unacknowledged e => (.error e, s')
      else (.ok a, s)

/-- The transaction's writes become durable, acknowledged or not. -/
def commits (body : Body σ ε α) (keep : α → Bool) (driver : Driver ε) (s : σ) : Bool :=
  match driver.refused, body.run driver.faults s, driver.commit with
  | some _, _, _ => false
  | none, .error _, _ => false
  | none, .ok _, .failed _ => false
  | none, .ok (a, _), _ => keep a

/-- Something in the transaction failed : `BEGIN`, a statement or check of the body, or
`COMMIT`. -/
def Fails (body : Body σ ε α) (driver : Driver ε) (s : σ) : Prop :=
  driver.refused ≠ none ∨ (∃ e, body.run driver.faults s = .error e) ∨
    ∃ e, driver.commit = .failed e

/-- What a transaction can do : fail and change nothing, give a result that is not kept and
change nothing, or leave durable what a fault-free run of the whole body reaches. -/
theorem transact_cases (body : Body σ ε α) (keep : α → Bool) (driver : Driver ε) (s : σ) :
    commits body keep driver s = false ∧ (∃ e, transact body keep driver s = (.error e, s)) ∨
    commits body keep driver s = false ∧ (∃ a s', body.run [] s = .ok (a, s') ∧ keep a = false ∧
      transact body keep driver s = (.ok a, s)) ∨
    commits body keep driver s ∧ (∃ a s', body.run [] s = .ok (a, s') ∧ keep a ∧
      (transact body keep driver s = (.ok a, s') ∨
        ∃ e, driver.commit = .unacknowledged e ∧
          transact body keep driver s = (.error e, s'))) := by
  unfold transact commits
  rcases driver.refused with _ | e
  · rcases hrun : body.run driver.faults s with e | ⟨a, s'⟩
    · exact .inl ⟨rfl, e, rfl⟩
    have hfree := Body.run_eq_of_run_faults hrun
    rcases hkeep : keep a with _ | _
    · refine .inr (.inl ⟨?_, a, s', hfree, hkeep, by simp [hkeep]⟩)
      rcases driver.commit with _ | e | e <;> simp [hkeep]
    · rcases driver.commit with _ | e | e
      · exact .inr (.inr ⟨hkeep, a, s', hfree, hkeep, .inl (by simp [hkeep])⟩)
      · exact .inl ⟨rfl, e, by simp [hkeep]⟩
      · exact .inr (.inr ⟨hkeep, a, s', hfree, hkeep, .inr ⟨e, rfl, by simp [hkeep]⟩⟩)
  · exact .inl ⟨rfl, e, rfl⟩

variable {driver : Driver ε} {body : Body σ ε α} {keep : α → Bool} {s : σ}

theorem transact_ok {a : α} (h : (transact body keep driver s).1 = .ok a) :
    ∃ s', body.run [] s = .ok (a, s') ∧
      (transact body keep driver s).2 = if keep a then s' else s := by
  rcases transact_cases body keep driver s with
    ⟨-, e, he⟩ | ⟨-, b, s', hrun, hk, hr⟩ | ⟨-, b, s', hrun, hk, hr⟩
  · rw [he] at h
    cases h
  · rw [hr] at h ⊢
    cases h
    exact ⟨s', hrun, by simp [hk]⟩
  · rcases hr with hr | ⟨e, -, hr⟩
    · rw [hr] at h ⊢
      cases h
      exact ⟨s', hrun, by simp [hk]⟩
    · rw [hr] at h
      cases h

theorem transact_snd (body : Body σ ε α) (keep : α → Bool) (driver : Driver ε) (s : σ) :
    commits body keep driver s = false ∧ (transact body keep driver s).2 = s ∨
      commits body keep driver s ∧
        ∃ a, body.run [] s = .ok (a, (transact body keep driver s).2) ∧ keep a := by
  rcases transact_cases body keep driver s with
    ⟨hc, e, he⟩ | ⟨hc, a, _, -, -, hr⟩ | ⟨hc, a, _, hrun, hk, hr⟩
  · exact .inl ⟨hc, by rw [he]⟩
  · exact .inl ⟨hc, by rw [hr]⟩
  · refine .inr ⟨hc, a, ?_, hk⟩
    rcases hr with hr | ⟨e, -, hr⟩ <;> rw [hr] <;> exact hrun

/-- A transaction in which something failed changes nothing. -/
theorem transact_of_fails (keep : α → Bool)
    (h : Fails body driver s) : (transact body keep driver s).2 = s := by
  refine (transact_snd body keep driver s).elim And.right fun ⟨hc, _⟩ => absurd hc ?_
  unfold commits
  rcases h with h | ⟨e, he⟩ | ⟨e, he⟩
  · obtain ⟨e, he⟩ := Option.ne_none_iff_exists'.1 h
    simp [he]
  · rcases driver.refused with _ | e' <;> simp [he]
  · rcases driver.refused with _ | e' <;> rcases body.run driver.faults s with e' | r <;> simp [he]

/-! ## Calls of one statement -/

/-- A call that reads. -/
def query (driver : Driver ε) (f : σ → Except ε α) (s : σ) : Except ε α :=
  (transact (select f) (fun _ => false) driver s).1

/-- A call that writes. -/
def write (driver : Driver ε) (f : σ → Except ε (α × σ)) (s : σ) : Except ε α × σ :=
  transact (Body.statement f Body.done) (fun _ => true) driver s

theorem query_ok {f : σ → Except ε α} {a : α} (h : query driver f s = .ok a) : f s = .ok a := by
  obtain ⟨_, hrun, -⟩ := transact_ok h
  exact (Body.run_select_ok.1 hrun).1

section

variable (driver : Driver ε) (f : σ → Except ε (α × σ)) (s : σ)

/-- A call that writes fails and changes nothing, or takes effect, acknowledged or not. -/
theorem write_cases : (∃ e, write driver f s = (.error e, s)) ∨
    ∃ a s', f s = .ok (a, s') ∧ (write driver f s = (.ok a, s') ∨
      ∃ e, driver.commit = .unacknowledged e ∧ write driver f s = (.error e, s')) := by
  unfold write
  rcases transact_cases (Body.statement f Body.done) (fun _ => true) driver s with
    ⟨-, he⟩ | ⟨-, a, s', -, hk, -⟩ | ⟨-, a, s', hrun, -, hres⟩
  · exact .inl he
  · simp at hk
  · refine .inr ⟨a, s', ?_, hres⟩
    simp only [Body.run, List.head?_nil, Option.join_none] at hrun
    cases hf : f s with
    | error => simp [hf] at hrun
    | ok => simpa [hf, Body.run, Prod.ext_iff] using hrun

/-- What a call that writes leaves. -/
theorem write_state :
    (write driver f s).2 = s ∨ ∃ a s', f s = .ok (a, s') ∧ (write driver f s).2 = s' := by
  obtain ⟨e, he⟩ | ⟨a, s', hf, hok | ⟨e, -, he⟩⟩ := write_cases driver f s
  · exact .inl (by rw [he])
  · exact .inr ⟨a, s', hf, by rw [hok]⟩
  · exact .inr ⟨a, s', hf, by rw [he]⟩

end

/-- What a write that cannot fail by itself leaves. -/
theorem write_total (driver : Driver ε) (f : σ → α × σ) (s : σ) :
    (write driver (fun s => .ok (f s)) s).2 = s ∨
      (write driver (fun s => .ok (f s)) s).2 = (f s).2 := by
  refine (write_state driver _ s).imp_right ?_
  rintro ⟨a, s', hf, heq⟩
  rw [heq, Except.ok.inj hf]

end Transaction
