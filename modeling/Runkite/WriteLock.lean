import Runkite.Trace
import Runkite.Transaction

/-!
# Transactions under one write lock

Any number of callers run transactions against one database, one statement at a time and in any
interleaving. A transaction takes the write lock when it begins (`BEGIN IMMEDIATE`), works on a copy
and keeps the lock until it commits, is rolled back or is abandoned; another caller that wants to
begin waits. A `State` is the committed database and the transaction that holds the lock.

Every step keeps that what is left of the holder's body does to its copy what the whole body would
do to the committed database (`Faithful`), so a commit is a run of the whole body on the state it
commits over.
-/

namespace Transaction

variable {σ τ ε ε' α : Type}

/-! ## A body over a part of the database -/

/-- A body over the first part of a database, with its errors renamed. -/
def Body.first (f : ε → ε') : Body σ ε α → Body (σ × τ) ε' α
  | .done a => .done a
  | .fail e => .fail (f e)
  | .statement run next =>
    .statement (fun s =>
      match run s.1 with
      | .ok (b, s') => .ok (b, (s', s.2))
      | .error e => .error (f e)) fun b => (next b).first f

theorem Body.run_first_ok {f : ε → ε'} {m : Body σ ε α} {s : σ} {t : τ} {a : α} {s' : σ × τ} :
    (m.first f).run [] (s, t) = .ok (a, s') ↔ ∃ s₁, m.run [] s = .ok (a, s₁) ∧ s' = (s₁, t) := by
  induction m generalizing s with
  | done =>
    simp only [first, run, Except.ok.injEq, Prod.mk.injEq]
    constructor
    · rintro ⟨rfl, rfl⟩
      exact ⟨s, ⟨rfl, rfl⟩, rfl⟩
    · rintro ⟨s₁, ⟨rfl, rfl⟩, rfl⟩
      exact ⟨rfl, rfl⟩
  | fail => simp [first, run]
  | statement g next ih =>
    simp only [first, run, List.head?_nil, Option.join_none, List.tail_nil]
    cases g s with
    | error => simp
    | ok r => exact ih r.1

namespace WriteLock

variable {ι : Type}

/-! ## The machine -/

/-- The transaction that holds the lock : its caller, the statements it has left and its working
copy. -/
structure Holder (ι σ ε α : Type) where
  caller : ι
  rest : Body σ ε α
  copy : σ

structure State (ι σ ε α : Type) where
  committed : σ
  holder : Option (Holder ι σ ε α) := none

inductive Event (ι ε : Type) where
  | begin (caller : ι)
  /-- The next statement of the holder, which the driver may make fail. -/
  | statement (fault : Option ε)
  /-- The holder is at the end of its body. -/
  | finish (commit : Commit ε)
  /-- The holder's connection is lost. -/
  | abandon

/-- The holder gives up the lock without a commit. -/
def State.release (st : State ι σ ε α) : State ι σ ε α := ⟨st.committed, none⟩

section Machine

variable (body : ι → Body σ ε α) (keep : α → Bool)

def step : Event ι ε → State ι σ ε α → State ι σ ε α
  | .begin i, st =>
    match st.holder with
    | some _ => st
    | none => ⟨st.committed, some ⟨i, body i, st.committed⟩⟩
  | .statement fault, st =>
    match st.holder with
    | none => st
    | some ⟨i, rest, copy⟩ =>
      match rest with
      | .done _ => st
      | .fail _ => st.release
      | .statement run next =>
        match fault, run copy with
        | none, .ok (b, copy) => ⟨st.committed, some ⟨i, next b, copy⟩⟩
        | _, _ => st.release
  | .finish commit, st =>
    match st.holder with
    | none => st
    | some ⟨_, rest, copy⟩ =>
      match rest, commit with
      | .done _, .failed _ => st.release
      | .done a, _ => if keep a then ⟨copy, none⟩ else st.release
      | _, _ => st
  | .abandon, st => st.release

/-- The step makes the working copy of the holder durable, acknowledged or not. -/
def commits : Event ι ε → State ι σ ε α → Bool
  | .finish commit, st =>
    match st.holder with
    | none => false
    | some ⟨_, rest, _⟩ =>
      match rest, commit with
      | .done _, .failed _ => false
      | .done a, _ => keep a
      | _, _ => false
  | _, _ => false

/-- The answer that a step gives to the caller of the holder. -/
def answer : Event ι ε → State ι σ ε α → Option (ι × Except ε α)
  | .statement fault, st =>
    match st.holder with
    | none => none
    | some ⟨i, rest, copy⟩ =>
      match rest with
      | .done _ => none
      | .fail e => some (i, .error e)
      | .statement run _ =>
        match fault, run copy with
        | some e, _ => some (i, .error e)
        | none, .error e => some (i, .error e)
        | none, .ok _ => none
  | .finish commit, st =>
    match st.holder with
    | none => none
    | some ⟨i, rest, _⟩ =>
      match rest, commit with
      | .done a, .done => some (i, .ok a)
      | .done _, .failed e => some (i, .error e)
      | .done a, .unacknowledged e => some (i, if keep a then .error e else .ok a)
      | _, _ => none
  | _, _ => none

/-! ## What a step does -/

/-- What a step can do : nothing, give up the lock, take it, execute a statement of the holder, or
commit. -/
theorem step_cases (ev : Event ι ε) (st : State ι σ ε α) :
    (commits keep ev st = false ∧ (step body keep ev st = st ∨ step body keep ev st = st.release ∨
      (∃ i, step body keep ev st = ⟨st.committed, some ⟨i, body i, st.committed⟩⟩) ∨
      ∃ i β, ∃ run : σ → Except ε (β × σ), ∃ next copy b copy',
        st.holder = some ⟨i, .statement run next, copy⟩ ∧ run copy = .ok (b, copy') ∧
        step body keep ev st = ⟨st.committed, some ⟨i, next b, copy'⟩⟩)) ∨
    commits keep ev st ∧ ∃ i a copy, st.holder = some ⟨i, .done a, copy⟩ ∧ keep a ∧
      step body keep ev st = ⟨copy, none⟩ := by
  obtain ⟨committed, holder⟩ := st
  rcases holder with _ | ⟨i, rest, copy⟩
  · cases ev with
    | begin i => exact .inl ⟨rfl, .inr (.inr (.inl ⟨i, rfl⟩))⟩
    | statement | finish | abandon => exact .inl ⟨rfl, .inl rfl⟩
  · cases ev with
    | begin => exact .inl ⟨rfl, .inl rfl⟩
    | abandon => exact .inl ⟨rfl, .inr (.inl rfl)⟩
    | statement fault =>
      refine .inl ⟨rfl, ?_⟩
      cases rest with
      | done => exact .inl rfl
      | fail => exact .inr (.inl rfl)
      | statement run next =>
        cases fault with
        | some => exact .inr (.inl rfl)
        | none =>
          cases hrun : run copy with
          | error => exact .inr (.inl (by simp [step, hrun]))
          | ok r =>
            refine .inr (.inr (.inr ⟨i, _, run, next, copy, r.1, r.2, rfl, hrun, ?_⟩))
            simp [step, hrun]
    | finish commit =>
      cases rest with
      | fail | statement => exact .inl ⟨rfl, .inl rfl⟩
      | done a =>
        cases commit with
        | failed => exact .inl ⟨rfl, .inr (.inl rfl)⟩
        | _ =>
          cases hkeep : keep a with
          | false => exact .inl ⟨hkeep, .inr (.inl (by simp [step, hkeep]))⟩
          | true => exact .inr ⟨hkeep, i, a, copy, rfl, hkeep, by simp [step, hkeep]⟩

variable {body keep} {st : State ι σ ε α} {ev : Event ι ε}

/-- A step that does not commit leaves the database as it is. -/
theorem committed_of_not_commits
    (h : commits keep ev st = false) : (step body keep ev st).committed = st.committed := by
  rcases step_cases body keep ev st with
    ⟨-, hstep | hstep | ⟨i, hstep⟩ | ⟨i, β, run, next, copy, b, copy', -, -, hstep⟩⟩ | ⟨hc, -⟩
  · rw [hstep]
  · rw [hstep, State.release]
  · rw [hstep]
  · rw [hstep]
  · rw [h] at hc
    cases hc

/-- An error is answered without a commit, unless a commit goes unacknowledged. -/
theorem not_commits_of_answer {i : ι} {e : ε} (h : answer keep ev st = some (i, .error e)) :
    commits keep ev st = false ∨ ev = .finish (.unacknowledged e) := by
  obtain ⟨_, holder⟩ := st
  cases ev with
  | begin | statement | abandon => exact .inl rfl
  | finish commit =>
    rcases holder with _ | ⟨j, rest, copy⟩
    · exact .inl rfl
    cases rest with
    | fail | statement => exact .inl rfl
    | done a =>
      cases commit with
      | done => simp [answer] at h
      | failed => exact .inl rfl
      | unacknowledged =>
        cases hkeep : keep a with
        | false => simp [answer, hkeep] at h
        | true =>
          simp only [answer, hkeep, if_true, Option.some.injEq, Prod.mk.injEq,
            Except.error.injEq] at h
          exact .inr (by rw [h.2])

/-! ## Commits are runs of whole bodies -/

/-- What is left of the holder's body does to its copy what the whole body does to the database. -/
def Faithful (body : ι → Body σ ε α) (st : State ι σ ε α) : Prop :=
  ∀ h, st.holder = some h → (body h.caller).run [] st.committed = h.rest.run [] h.copy

theorem Faithful.step (hst : Faithful body st) (ev : Event ι ε) :
    Faithful body (step body keep ev st) := by
  intro h hh
  rcases step_cases body keep ev st with
    ⟨-, hstep | hstep | ⟨i, hstep⟩ | ⟨i, β, run, next, copy, b, copy', hholder, hrun, hstep⟩⟩ |
    ⟨-, i, a, copy, -, -, hstep⟩
  · rw [hstep] at hh ⊢
    exact hst h hh
  · rw [hstep] at hh
    cases hh
  · rw [hstep] at hh ⊢
    cases hh
    rfl
  · rw [hstep] at hh ⊢
    cases hh
    rw [hst _ hholder]
    simp [Body.run, List.head?_nil, Option.join_none, hrun, List.tail_nil]
  · rw [hstep] at hh
    cases hh

/-- A commit is a run of the whole body on the database it commits over. -/
theorem Faithful.run_of_commits (hst : Faithful body st) (h : commits keep ev st) :
    ∃ hold a, st.holder = some hold ∧ keep a ∧
      (body hold.caller).run [] st.committed = .ok (a, (WriteLock.step body keep ev st).committed) := by
  rcases step_cases body keep ev st with
    ⟨hc, -⟩ | ⟨-, i, a, copy, hholder, hkeep, hstep⟩
  · rw [h] at hc
    cases hc
  · refine ⟨_, a, hholder, hkeep, ?_⟩
    rw [hst _ hholder, hstep]
    rfl

end Machine

end WriteLock

end Transaction
