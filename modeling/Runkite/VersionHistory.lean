import Runkite.Store
import Runkite.WriteLock

/-!
# Version history

`UpsertAgent`, `PublishRegistryEntry` and `DeleteRegistryEntry` of the SQLite store. The current row
carries the version, which goes up when the submitted content differs from the row's, and a second
statement of the transaction stores a snapshot of the version unless there is one. A `History` is
the rows of one tenant and name, which calls for other names do not touch.

`versions_faithful` is about every step of every interleaving of the statements. The first one of a
call is a write, which takes the lock.
-/

namespace Runkite.Versions

open Transaction

structure Snapshot (α : Type) where
  content : α
  createdAt : String

structure History (α : Type) where
  current : Option (ℕ × α) := none
  snapshots : ℕ → Option (Snapshot α) := fun _ => none

/-- The condition under which an upsert counts the version up : some column has changed. -/
structure Changed (α : Type) where
  changed : α → α → Bool
  changed_iff : ∀ old new, changed old new = true ↔ old ≠ new

structure AgentContent where
  name : String
  description : String
  metadata : String
  capabilities : String

structure RegistryContent where
  displayName : String
  description : String
  author : String
  tags : String
  sourceType : String
  sourceRef : String
  metadata : String

def agents : Changed AgentContent where
  changed old new := old.name != new.name || old.description != new.description ||
    old.metadata != new.metadata || old.capabilities != new.capabilities
  changed_iff := by grind [AgentContent]

def registryEntries : Changed RegistryContent where
  changed old new := old.displayName != new.displayName || old.description != new.description ||
    old.author != new.author || old.tags != new.tags || old.sourceType != new.sourceType ||
    old.sourceRef != new.sourceRef || old.metadata != new.metadata
  changed_iff := by grind [RegistryContent]

variable {α ι : Type} (k : Changed α)

/-- `INSERT … ON CONFLICT DO UPDATE … RETURNING version`. -/
def upsertRow (c : α) (h : History α) : Except StoreError (ℕ × History α) :=
  let version := match h.current with
    | none => 1
    | some (v, old) => if k.changed old c then v + 1 else v
  .ok (version, { h with current := some (version, c) })

/-- `INSERT … ON CONFLICT DO NOTHING`. -/
def insertSnapshot (v : ℕ) (s : Snapshot α) (h : History α) : History α :=
  { h with snapshots := fun n => if n = v then (h.snapshots v).or (some s) else h.snapshots n }

def upsert (c : α) (now : String) : Body (History α) StoreError Unit := do
  let newVersion ← Body.statement (upsertRow k c) .done
  exec (insertSnapshot newVersion ⟨c, now⟩)

def upsertAgent (call : AgentContent × String) := upsert agents call.1 call.2

/-- A system caller deletes the rows of every tenant, so that `others` rows count beside this
tenant's. -/
def deleteRegistryEntry (name : String) (others : ℕ) :
    Body (History RegistryContent) StoreError Unit := do
  let n ← Body.statement
    (fun h => .ok (h.current.toList.length + others, { h with current := none })) .done
  if n = 0 then raise (.notFound "registry_entry" name)
  else exec fun h => { h with snapshots := fun _ => none }

inductive RegistryCall where
  | publishRegistryEntry (content : RegistryContent) (now : String)
  | deleteRegistryEntry (name : String) (others : ℕ)

def RegistryCall.body : RegistryCall → Body (History RegistryContent) StoreError Unit
  | .publishRegistryEntry content now => upsert registryEntries content now
  | .deleteRegistryEntry name others => Versions.deleteRegistryEntry name others

def RegistryCall.submitted : RegistryCall → Option RegistryContent
  | .publishRegistryEntry content _ => some content
  | .deleteRegistryEntry _ _ => none

/-- The stored versions are `1` to the current one, whose snapshot has the current content. -/
def History.Sound (h : History α) : Prop :=
  match h.current with
  | none => ∀ n, h.snapshots n = none
  | some (v, c) => (∀ n, (h.snapshots n).isSome ↔ 1 ≤ n ∧ n ≤ v) ∧
    (h.snapshots v).map Snapshot.content = some c

/-- The version of a submitted content : one more than the current row's exactly if they differ. -/
def Follows (c : α) (v : ℕ) : Option (ℕ × α) → Prop
  | none => v = 1
  | some (w, old) => v = w + 1 ∧ old ≠ c ∨ v = w ∧ old = c

/-- What a committed transaction does that submits a content or deletes the entry. -/
structure Commits (submitted : Option α) (h h' : History α) : Prop where
  sound : h'.Sound
  current : match submitted with
    | none => h'.current = none
    | some c => ∃ v, h'.current = some (v, c) ∧ Follows c v h.current
  kept : h'.current.isSome → ∀ n s, h.snapshots n = some s → h'.snapshots n = some s

variable {k} {h h' : History α} {u : Unit} {c : α} {v : ℕ}

theorem upsert_commits (hs : h.Sound) {now : String}
    (hrun : (upsert k c now).run [] h = .ok (u, h')) : Commits (some c) h h' := by
  simp only [upsert, Body.run_bind_ok, Body.run_exec_ok] at hrun
  obtain ⟨v, t, hrow, rfl⟩ := hrun
  cases hrow
  have hchanged := k.changed_iff
  obtain ⟨_ | ⟨w, _⟩, snapshots⟩ := h
  · simp only [History.Sound] at hs
    refine ⟨?_, ⟨1, rfl, rfl⟩, ?_⟩ <;> simp only [insertSnapshot, History.Sound] <;> grind
  · obtain ⟨s, _, rfl⟩ := Option.map_eq_some_iff.1 hs.2
    replace hs := hs.1
    have hnew : snapshots (w + 1) = none := by simpa using hs (w + 1)
    refine ⟨?_, ⟨_, rfl, ?_⟩, ?_⟩ <;> simp only [insertSnapshot, History.Sound, Follows] <;> grind

theorem RegistryCall.commits (call : RegistryCall) {h h' : History RegistryContent} (hs : h.Sound)
    (hrun : call.body.run [] h = .ok (u, h')) : Commits call.submitted h h' := by
  cases call with
  | publishRegistryEntry => exact upsert_commits hs hrun
  | deleteRegistryEntry =>
    simp only [body, Versions.deleteRegistryEntry, Body.run_bind_ok] at hrun
    obtain ⟨n, t, hrow, hrest⟩ := hrun
    cases hrow
    split at hrest
    · exact absurd hrest Body.run_raise_ok
    · obtain rfl := Body.run_exec_ok.1 hrest
      exact ⟨fun _ => rfl, rfl, fun h => by cases h⟩

/-! ## Interleavings -/

variable (body : ι → Body (History α) StoreError Unit) (submitted : ι → Option α)

abbrev step := WriteLock.step body fun _ => true

/-- A step that commits does what the transaction of the holder says, any other leaves the rows. -/
structure FaithfulStep (ev : WriteLock.Event ι StoreError)
    (st : WriteLock.State ι (History α) StoreError Unit) : Prop where
  sound : (step body ev st).committed.Sound
  commits : if WriteLock.commits (fun _ => true) ev st then ∃ hold, st.holder = some hold ∧
      Commits (submitted hold.caller) st.committed (step body ev st).committed
    else (step body ev st).committed = st.committed

variable {body submitted}

theorem every_faithfulStep (hbody : ∀ i h h' u, h.Sound → (body i).run [] h = .ok (u, h') →
      Commits (submitted i) h h') (evs : List (WriteLock.Event ι StoreError)) :
    Trace.Every (step body) (FaithfulStep body submitted) evs ⟨{}, none⟩ := by
  have hfaithful : ∀ ev st, WriteLock.Faithful body st ∧ st.committed.Sound →
      FaithfulStep body submitted ev st := by
    rintro ev st ⟨hst, hs⟩
    cases hc : WriteLock.commits (fun _ => true) ev st with
    | false =>
      have hsame : (step body ev st).committed = _ := WriteLock.committed_of_not_commits hc
      exact ⟨hsame ▸ hs, by rwa [hc]⟩
    | true =>
      obtain ⟨hold, _, hholder, -, hrun⟩ := hst.run_of_commits hc
      have hcommits := hbody _ _ _ _ hs hrun
      exact ⟨hcommits.sound, by rw [hc]; exact ⟨hold, hholder, hcommits⟩⟩
  refine Trace.every_of_invariant (P := fun _ _ => True) (fun ev st _ hst => ?_)
    (fun ev st _ => hfaithful ev st) (Trace.every_of_mem fun _ _ => trivial)
    ⟨fun _ => nofun, fun _ => rfl⟩
  exact ⟨hst.1.step ev, (hfaithful ev st hst).sound⟩

theorem versions_faithful (upserts : List (WriteLock.Event (AgentContent × String) StoreError))
    (calls : List (WriteLock.Event RegistryCall StoreError)) :
    Trace.Every (step upsertAgent) (FaithfulStep upsertAgent fun call => some call.1) upserts
        ⟨{}, none⟩ ∧
      Trace.Every (step RegistryCall.body) (FaithfulStep RegistryCall.body RegistryCall.submitted)
        calls ⟨{}, none⟩ :=
  ⟨every_faithfulStep (fun _ _ _ _ hs => upsert_commits hs) upserts,
    every_faithfulStep (fun call _ _ _ => call.commits) calls⟩

end Runkite.Versions
