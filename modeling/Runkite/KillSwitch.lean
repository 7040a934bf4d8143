import Runkite.Store
import Runkite.Strings
import Runkite.Trace

/-!
# Kill switches

A kill switch stops the runs of a tenant, or of one agent of a tenant. The table has the
switch's id as its primary key and at most one row per tenant and agent, and `FindActiveKill`
looks a switch up by tenant and agent.

A request that names no id gets one made of its tenant and agent, joined by a hyphen. Names may
hold hyphens, so two scopes can share an id, and then the upsert rewrites the row of the first to
the scope of the second (`kill_switch_displaced`). A switch stays found as long as no activation
comes with the id of another scope's row (`kill_switch_stays_found`).
-/

open Strings (trimSpace)
open Transaction (Driver query write write_cases write_state write_total)

namespace Runkite

/-! ## The table -/

/-- A row of `kill_switches`; an empty agent is every agent of the tenant. -/
structure KillSwitch where
  id : String
  tenantId : String
  agentId : String
  pauseOnly : Bool
  reason : String
  createdBy : String
  createdAt : String
  updatedAt : String
deriving DecidableEq, Repr

def KillSwitch.scope (k : KillSwitch) : String × String := (k.tenantId, k.agentId)

/-- `kill_switches`, with its `UNIQUE (tenant_id, agent_id)`. -/
abbrev KillTable :=
  UniqueTable KillSwitch String (String × String) KillSwitch.id fun k => some k.scope

namespace KillTable

/-- On a conflict of ids every column but the id and the creation time is
overwritten, the scope included. -/
def upsertKillSwitch (k : KillSwitch) (t : KillTable) : Except StoreError (Unit × KillTable) :=
  match t.upsert k (fun old => { k with id := old.id, createdAt := old.createdAt })
      (fun _ => rfl) (fun _ => rfl) with
  | some t' => .ok ((), t')
  | none => .error (.conflict "kill_switch" (k.tenantId ++ "/" ++ k.agentId)
      "already exists for tenant/agent (DELETE then recreate, or reuse the same id)")

def getKillSwitch (id : String) (t : KillTable) : Except StoreError KillSwitch :=
  match t.get? id with
  | some k => .ok k
  | none => .error (.notFound "kill_switch" id)

def deleteKillSwitch (id : String) (t : KillTable) : KillTable := t.delete fun k => k.id = id

/-- The agent's own switch, or else that of the whole tenant. -/
def findActiveKill (t : KillTable) (tenantId agentId : String) : Option KillSwitch :=
  (t.select fun k => k.scope = (tenantId, agentId)).or
    (t.select fun k => k.scope = (tenantId, ""))

variable {k : KillSwitch} {t : KillTable}

theorem findActiveKill_of_mem (h : k ∈ t.rows) :
    ∃ k', t.findActiveKill k.tenantId k.agentId = some k' ∧ k'.scope = k.scope := by
  obtain ⟨k', hk'⟩ : ∃ k', t.select (fun k' => k'.scope = (k.tenantId, k.agentId)) = some k' := by
    rw [← Option.isSome_iff_exists, Table.select, List.find?_isSome]
    exact ⟨k, h, decide_eq_true rfl⟩
  refine ⟨k', by rw [findActiveKill, hk', Option.some_or], ?_⟩
  exact of_decide_eq_true (List.find?_some hk' :)

theorem get?_of_upsertKillSwitch {t t' : KillTable} {u : Unit}
    (h : upsertKillSwitch k t = .ok (u, t')) (id : String) :
    ∃ k', k'.scope = k.scope ∧ t'.get? id = if id = k.id then some k' else t.get? id := by
  unfold upsertKillSwitch at h
  split at h
  · rename_i t'' hupsert
    cases h
    unfold UniqueTable.upsert at hupsert
    split_ifs at hupsert
    cases hupsert
    rw [Table.get?_upsert]
    refine ⟨_, ?_, rfl⟩
    cases t.get? id <;> rfl
  · cases h

theorem get?_deleteKillSwitch_of_ne {id id' : String} (h : id ≠ id') :
    (deleteKillSwitch id' t).get? id = t.get? id := by
  change (t.toTable.delete fun k => k.id = id').get? id = _
  rw [Table.get?_delete]
  cases hk : t.get? id with
  | none => rfl
  | some => simp [Table.key_of_get? hk, h]

end KillTable

/-! ## Requests -/

/-- The body of `POST /admin-api/kill-switches`. -/
structure KillSwitchBody where
  id : String := ""
  tenantId : String
  agentId : String := ""
  pauseOnly : Bool := false
  reason : String := ""

/-- The id of a switch whose request names none. -/
def defaultKillId (tenantId agentId : String) : String :=
  if agentId ≠ "" then "kill-" ++ tenantId ++ "-" ++ agentId else "kill-" ++ tenantId

namespace KillSwitchBody

/-- The tenant and agent that the request is about. -/
def scope (body : KillSwitchBody) : String × String :=
  (trimSpace body.tenantId, trimSpace body.agentId)

/-- The id under which the switch is stored. -/
def switchId (body : KillSwitchBody) : String :=
  let id := trimSpace body.id
  if id = "" then defaultKillId body.scope.1 body.scope.2 else id

def killSwitch (body : KillSwitchBody) (createdBy now : String) : KillSwitch where
  id := body.switchId
  tenantId := body.scope.1
  agentId := body.scope.2
  pauseOnly := body.pauseOnly
  reason := body.reason
  createdBy := createdBy
  createdAt := now
  updatedAt := now

theorem killSwitch_id (body : KillSwitchBody) (createdBy now : String) :
    (body.killSwitch createdBy now).id = body.switchId := by rw [killSwitch]

theorem killSwitch_scope (body : KillSwitchBody) (createdBy now : String) :
    (body.killSwitch createdBy now).scope = body.scope := by rw [KillSwitch.scope, killSwitch]

end KillSwitchBody

/-- A request to the admin API, with who sends it, the clock and what the driver does to its
statements. -/
inductive KillRequest where
  | activate (body : KillSwitchBody) (createdBy now : String) (upsert : Driver StoreError)
  | delete (id : String) (lookup remove : Driver StoreError)

namespace KillRequest

/-- `handleAdminCreateKillSwitch` up to the drain, which leaves the table alone, and
`handleAdminDeleteKillSwitch`. -/
def handle : KillRequest → KillTable → Except StoreError Unit × KillTable
  | .activate body createdBy now upsert, t =>
    if body.scope.1 = "" then (.error (.message "tenant_id is required"), t)
    else write upsert (KillTable.upsertKillSwitch (body.killSwitch createdBy now)) t
  | .delete id lookup remove, t =>
    match query lookup (KillTable.getKillSwitch id) t with
    | .error e => (.error e, t)
    | .ok _ => write remove (fun t => .ok ((), KillTable.deleteKillSwitch id t)) t

def step (r : KillRequest) (t : KillTable) : KillTable := (r.handle t).2

/-- A stored switch under the id of an activation has the scope of the activation. -/
def fits : KillRequest → KillTable → Bool
  | .activate body _ _ _, t => (t.get? body.switchId).all fun k => k.scope = body.scope
  | .delete _ _ _, _ => true

/-- The id that a request deletes. -/
def deleted? : KillRequest → Option String
  | .activate _ _ _ _ => none
  | .delete id _ _ => some id

/-- What a request does to the row under an id. -/
theorem get?_step (r : KillRequest) (t : KillTable) {id : String} (hkept : r.deleted? ≠ some id) :
    (r.step t).get? id = t.get? id ∨
    ∃ body createdBy now upsert k, r = .activate body createdBy now upsert ∧
      id = body.switchId ∧ k.scope = body.scope ∧ (r.step t).get? id = some k := by
  cases r with
  | activate body createdBy now upsert =>
    simp only [step, handle]
    split_ifs
    · exact .inl rfl
    obtain hsame | ⟨u, t', hupsert, htable⟩ :=
      write_state upsert (KillTable.upsertKillSwitch (body.killSwitch createdBy now)) t
    · exact .inl (by rw [hsame])
    obtain ⟨k, hk, hget⟩ := KillTable.get?_of_upsertKillSwitch hupsert id
    rw [KillSwitchBody.killSwitch_scope] at hk
    rw [htable, hget, KillSwitchBody.killSwitch_id]
    split_ifs with hid
    · exact .inr ⟨body, createdBy, now, upsert, k, rfl, hid, hk, rfl⟩
    · exact .inl rfl
  | delete id' lookup remove =>
    refine .inl ?_
    have hne : id ≠ id' := fun h => hkept (h ▸ rfl)
    simp only [step, handle]
    split
    · rfl
    obtain hsame | hdeleted :=
      write_total remove (fun t => ((), KillTable.deleteKillSwitch id' t)) t
    · rw [hsame]
    · rw [hdeleted]
      exact KillTable.get?_deleteKillSwitch_of_ne hne

/-- The row under the id is a switch of the scope. -/
def Stored (id : String) (scope : String × String) (t : KillTable) : Prop :=
  ∃ k, k.scope = scope ∧ t.get? id = some k

/-- An activation that is acknowledged stores a switch of its scope under its id. -/
theorem stored_of_handle_activate {body : KillSwitchBody} {createdBy now : String}
    {upsert : Driver StoreError} {t : KillTable}
    (h : ((activate body createdBy now upsert).handle t).1 = .ok ()) :
    Stored body.switchId body.scope ((activate body createdBy now upsert).step t) := by
  simp only [Stored, step, handle] at h ⊢
  split_ifs at h ⊢
  obtain ⟨e, hw⟩ | ⟨u, _, hupsert, hw | ⟨e, -, hw⟩⟩ :=
    write_cases upsert (KillTable.upsertKillSwitch (body.killSwitch createdBy now)) t
  · rw [hw] at h
    cases h
  · obtain ⟨k, hk, hget⟩ := KillTable.get?_of_upsertKillSwitch hupsert body.switchId
    rw [KillSwitchBody.killSwitch_scope] at hk
    rw [hw, hget, KillSwitchBody.killSwitch_id]
    exact ⟨k, hk, if_pos rfl⟩
  · rw [hw] at h
    cases h

/-- A fitting request leaves the switch of a scope under its id. -/
theorem Stored.step {scope : String × String} {id : String} {r : KillRequest} {t : KillTable}
    (hr : r.fits t ∧ r.deleted? ≠ some id) (h : Stored id scope t) :
    Stored id scope (r.step t) := by
  obtain ⟨k, hk, hget⟩ := h
  obtain hsame | ⟨body, createdBy, now, upsert, k', rfl, hid, hk', hget'⟩ := r.get?_step t hr.2
  · exact ⟨k, hk, hsame.trans hget⟩
  · have hfits : k.scope = body.scope := by simpa [fits, ← hid, hget] using hr.1
    exact ⟨k', hk'.trans (hfits.symm.trans hk), hget'⟩

end KillRequest

/-! ## Sequences of requests -/

/-- After any sequence of requests in which every activation fits, the scope of an activation
that was acknowledged and whose id was not deleted since is found, with a switch of its own. -/
theorem kill_switch_stays_found (t : KillTable) (before after : List KillRequest)
    (body : KillSwitchBody) (createdBy now : String) (upsert : Driver StoreError)
    (hfits : Trace.Every KillRequest.step (fun r t => r.fits t = true)
      (before ++ .activate body createdBy now upsert :: after) t)
    (hactivated : ((KillRequest.activate body createdBy now upsert).handle
      (Trace.run KillRequest.step before t)).1 = .ok ())
    (hkept : ∀ r ∈ after, r.deleted? ≠ some body.switchId) :
    ∃ k, (Trace.run KillRequest.step (before ++ .activate body createdBy now upsert :: after)
        t).findActiveKill body.scope.1 body.scope.2 = some k ∧ k.scope = body.scope := by
  rw [Trace.every_append] at hfits
  obtain ⟨-, -, hafter⟩ := hfits
  have hstored := KillRequest.stored_of_handle_activate hactivated
  rw [Trace.run_append, Trace.run_cons]
  generalize KillRequest.step _ (Trace.run KillRequest.step before t) = t₁ at hafter hstored ⊢
  have hevery := Trace.every_and hafter (Trace.every_of_mem hkept)
  obtain ⟨k, hk, hget⟩ :=
    Trace.invariant (fun _ _ hr h => KillRequest.Stored.step hr h) hevery hstored
  obtain ⟨k', hfound, hk'⟩ :=
    KillTable.findActiveKill_of_mem (Table.get?_eq_some_iff.1 hget).1
  rw [← hk]
  exact ⟨k', hfound, hk'⟩

/-- A switch of one agent, one of the whole tenant, which is deleted, and the first again. -/
theorem kill_switch_stays_found_agent : ∃ k, (Trace.run KillRequest.step
        ([] ++ .activate { tenantId := "acme", agentId := " mailer-2 " } "root" "t1" {} ::
          [.activate { tenantId := "acme" } "root" "t2" {}, .delete "kill-acme" {} {},
            .activate { tenantId := "acme", agentId := "mailer-2", pauseOnly := true } "root" "t3" {}])
        .empty).findActiveKill "acme" "mailer-2" = some k ∧ k.scope = ("acme", "mailer-2") :=
  kill_switch_stays_found .empty [] _ { tenantId := "acme", agentId := " mailer-2 " } "root" "t1" {}
    (by decide +kernel) (by decide +kernel) (by decide +kernel)

/-- Two activations whose scopes share the id `kill-acme-mailer-eu` : the second takes over the
row of the first, which is then not found, though nothing was deleted. -/
theorem kill_switch_displaced :
    let first : KillRequest :=
      .activate { tenantId := "acme", agentId := "mailer-eu" } "root" "t1" {}
    let second : KillRequest :=
      .activate { tenantId := "acme-mailer", agentId := "eu" } "root" "t2" {}
    (first.handle .empty).1 = .ok () ∧ second.deleted? = none ∧
      (Trace.run KillRequest.step [first, second] .empty).findActiveKill "acme" "mailer-eu" =
        none := by decide +kernel

end Runkite
