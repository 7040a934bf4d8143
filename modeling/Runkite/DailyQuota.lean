import Runkite.ConcurrencyCaps
import Runkite.IdempotentCreate

/-!
# The ceilings on runs of a day

The daily ceilings are on the rows of the day that are in the store, without simulations. A run that
is deleted, by a cancel with rollback, a delete or pruning, is no longer counted, and another one may
be created in its place.

`daily_quota` bounds the runs that are created on a day by the ceiling and these deletions.
-/

open Json (Members Number Text Value marshal)

namespace Runkite

/-! ## Simulations -/

/-- The metadata column of a run that the API created, with its mark as a simulation. -/
def Marked (b : Bool) (t : Text) : Prop :=
  ∃ ms : Members Binary64.Decimal, t = .document (.object ms) ∧ ms.Distinct ∧
    (ms.lookup "simulation" = some (.bool b) ∨ b = false ∧ ms.lookup "simulation" = none)

variable {b : Bool} {t : Text}

theorem Marked.simulation {r : Run} (h : Marked b r.metadata) : r.simulation = some b := by
  obtain ⟨_, hms, -, hlookup | ⟨rfl, hlookup⟩⟩ := h <;> simp [Run.simulation, hms, hlookup]

/-- The same, of a map. -/
def MarkedMap (b : Bool) (ms : Members Number) : Prop :=
  ms.lookup "simulation" = some (.bool b) ∨ b = false ∧ ms.lookup "simulation" = none

theorem Marked.member (h : Marked b t) : t.member "simulation" = some (.bool b) ∨
    b = false ∧ t.member "simulation" = none := by
  obtain ⟨ms, rfl, hdistinct, _⟩ := h
  rwa [Text.member, hdistinct.lookup_lastWins]

/-- Writing a map keeps its mark. -/
theorem MarkedMap.marshal {ms : Members Number} (h : MarkedMap b ms) (hdistinct : ms.Distinct)
    (ht : marshal (.object ms) = some t) : Marked b t := by
  obtain ⟨ws, rfl, hdw, hlookup⟩ := Json.exists_of_marshal hdistinct ht
  refine ⟨ws, rfl, hdw, ?_⟩
  rw [hlookup]
  rcases h with hlookup | ⟨rfl, hlookup⟩
  · exact .inl (by rw [hlookup]; rfl)
  · exact .inr ⟨rfl, by rw [hlookup]; rfl⟩

/-- A column that is written back with one more member keeps its mark. -/
theorem Marked.rewrite {raw raw' : Text} {m : Members Number} {key : String} {v : Value Number}
    (h : Marked b raw) (hm : decodeMetadata raw = some m) (hkey : "simulation" ≠ key)
    (hraw : Json.marshal (.object (Members.insert key v m)) = some raw') : Marked b raw' := by
  refine MarkedMap.marshal ?_ ((decoded_of_decodeMetadata hm).distinct.insert key v) hraw
  unfold MarkedMap
  rw [Members.lookup_insert_of_ne hkey, lookup_of_decodeMetadata hm]
  rcases h.member with hmember | ⟨rfl, hmember⟩
  · exact .inl (by rw [hmember]; rfl)
  · exact .inr ⟨rfl, by rw [hmember]; rfl⟩

theorem Marked.rowStep {rolledBack : Prop} {r r' : Run} (h : Marked b r.metadata)
    (hstep : RowStep rolledBack r r') : Marked b r'.metadata := by
  cases hstep with
  | same | failed => exact h
  | begun now hl ht hraw => exact h.rewrite (loaded_ok_iff.1 hl).1 (by decide) hraw
  | completed output error now hl ht hst hraw =>
    exact h.rewrite (loaded_ok_iff.1 hl).1 (by decide) hraw

variable {srv : Server} {env : Env} {db : Db} {ctx : Ctx} {run : NewRun} {runId : String} {r : Run}
  {ms : Members Number}

theorem Create.lookup_metadataMember {key k : String} (hne : k ≠ key) (v : Option (Value Number)) :
    (Create.metadataMember key v).lookup k = none := by
  cases v with
  | none => rfl
  | some => simp [Create.metadataMember, Members.lookup_member, hne]

theorem Create.markedMap_of_inserts {c : Create} (h : c.inserts env ctx run) :
    ∃ b ms, run.metadata = some ms ∧ MarkedMap b ms := by
  have halias : (c.aliasMember).lookup "simulation" = none :=
    Create.lookup_metadataMember (by decide) _
  obtain ⟨-, ⟨parent, -, rfl⟩ | ⟨-, _, rfl⟩⟩ := h
  · refine ⟨c.req.simulation || parent.elim false Create.isSimulation, _, rfl, ?_⟩
    have hcache : (Create.metadataMember "cache_key"
        (if c.req.resume then none else env.cacheKey.map .string)).lookup "simulation" = none :=
      Create.lookup_metadataMember (by decide) _
    have hmanifest : [("run_manifest", env.manifest)].lookup "simulation" = none := by
      rw [Members.lookup_member, if_neg (by decide), List.lookup_nil]
    unfold MarkedMap
    rw [List.lookup_append, List.lookup_append, List.lookup_append, halias, hcache, hmanifest]
    cases c.req.simulation || parent.elim false Create.isSimulation with
    | true => exact .inl (by simp [Create.metadataMember])
    | false => exact .inr ⟨rfl, by simp [Create.metadataMember]⟩
  · refine ⟨false, _, rfl, .inr ⟨rfl, ?_⟩⟩
    rw [Members.lookup_member, if_neg (by decide), Members.lookup_member, if_neg (by decide), halias]

/-- The row of a run that is inserted. -/
theorem marked_metadataText {b : Bool} (hms : run.metadata = some ms)
    (hdistinct : ms.Distinct) (h : MarkedMap b ms) : Marked b run.metadataText := by
  obtain ⟨t, ht⟩ := Json.exists_marshal (.object ms)
  simp only [NewRun.metadataText, hms, ht, Option.getD_some]
  exact h.marshal hdistinct ht

theorem marked_createCachedRun {b : Bool} {d : Dialect}
    (hms : run.metadata = some ms) (hdistinct : ms.Distinct) (h : MarkedMap b ms)
    (hnone : db.runs.get? runId = none)
    (hr : (createCachedRun d ctx run env.caps env.now env.driver db).2.runs.get? runId = some r) :
    Marked b r.metadata := by
  obtain hsame | ⟨pending, _, _, _, _, raw, _, _, hprep, -, -, -, hmeta, hraw, hget⟩ :=
    get?_createCachedRun d ctx run env db runId
  · rw [hsame, hnone] at hr
    cases hr
  cases hget.symm.trans hr
  have hpending : Marked b pending.metadataText := by
    refine marked_metadataText (prepareCachedRun_keeps hprep).2.2 ?_ ?_
    · rw [hms]
      exact (hdistinct.erase _).erase _
    · unfold MarkedMap
      rw [hms, Option.getD_some, Members.lookup_erase, Members.lookup_erase, if_neg (by decide),
        if_neg (by decide)]
      exact h
  exact hpending.rewrite hmeta (by decide) hraw

/-! ## The runs of the day -/

/-- The run is counted for a day that starts at `since`. -/
def Run.countsFor (since tenantId : String) (a : String → Bool) (r : Run) : Bool :=
  since ≤ r.createdAt && r.tenantId = tenantId && r.simulation ≠ some true && a r.agentId

/-- The runs of the day of a tenant, of the agents that `a` picks, that are in the store. -/
def Db.ofDay (db : Db) (since tenantId : String) (a : String → Bool) : ℕ :=
  db.runs.count (Run.countsFor since tenantId a)

/-- The runs of the day that a step adds. -/
def World.createdBy (srv : Server) (since tenantId : String) (a : String → Bool) (ev : Event)
    (w : World) : ℕ :=
  (w.step srv ev).db.runs.count fun r =>
    r.countsFor since tenantId a && (w.db.runs.get? r.runId).isNone

/-- The runs of the day that a step deletes. -/
def World.deletedBy (srv : Server) (since tenantId : String) (a : String → Bool) (ev : Event)
    (w : World) : ℕ :=
  w.db.runs.count fun r =>
    r.countsFor since tenantId a && ((w.step srv ev).db.runs.get? r.runId).isNone

/-- The runs of the day are marked as the API marks them. -/
def MarkedDay (since : String) (db : Db) : Prop :=
  ∀ k r, db.runs.get? k = some r → since ≤ r.createdAt → ∃ b, Marked b r.metadata

variable {since tenantId : String} {a : String → Bool} {w : World} {ev : Event}

section

variable {rolledBack : Prop} {r' : Run} (h : RowStep rolledBack r r')
include h

theorem RowStep.createdAt : r'.createdAt = r.createdAt := by
  cases h <;> rfl

/-- A row that stays is counted if it was. -/
theorem RowStep.countsFor (hmarked : since ≤ r.createdAt → ∃ b, Marked b r.metadata) :
    r'.countsFor since tenantId a = r.countsFor since tenantId a := by
  obtain ⟨htenant, -, hagent, -⟩ := h.keeps
  unfold Run.countsFor
  rw [h.createdAt, htenant, hagent]
  by_cases hday : since ≤ r.createdAt
  · obtain ⟨b, hb⟩ := hmarked hday
    rw [hb.simulation, (hb.rowStep h).simulation]
  · simp [hday]

end

theorem MarkedDay.step (h : MarkedDay since w.db) : MarkedDay since (w.step srv ev).db := by
  have hwrites := @World.step_writes srv w ev
  intro k r' hr' hday
  cases hr : w.db.runs.get? k with
  | some r =>
    have hstep := hwrites.rowStep_kept hr hr'
    obtain ⟨b, hb⟩ := h k r hr (hstep.createdAt ▸ hday)
    exact ⟨b, hb.rowStep hstep⟩
  | none =>
    -- a row that a request inserts
    have hinserted : ∀ ctx run, w.inserts ev ctx run →
        ∃ b ms, run.metadata = some ms ∧ ms.Distinct ∧ MarkedMap b ms := by
      rintro ctx run ⟨i, env, c, -, -, hinserts⟩
      obtain ⟨b, ms, hms, hb⟩ := Create.markedMap_of_inserts hinserts
      have hdistinct := (Create.inserts_run hinserts).2.2.2.2.1
      rw [hms] at hdistinct
      exact ⟨b, ms, hms, hdistinct, hb⟩
    obtain ⟨ctx, run, t, hrun, -, -, rfl⟩ | ⟨ctx, run, _, hrun, hdb⟩ := hwrites.newRow_cases hr hr'
    · obtain ⟨b, ms, hms, hdistinct, hb⟩ := hinserted ctx run hrun
      exact ⟨b, marked_metadataText hms hdistinct hb⟩
    · obtain ⟨b, _, hms, hdistinct, hb⟩ := hinserted ctx run hrun
      rw [hdb] at hr'
      exact ⟨b, marked_createCachedRun hms hdistinct hb hr hr'⟩

/-- The runs of the day after a step, with those it deletes, are those before it with those it
adds. -/
theorem World.ofDay_step (h : MarkedDay since w.db) :
    (w.step srv ev).db.ofDay since tenantId a + w.deletedBy srv since tenantId a ev =
      w.db.ofDay since tenantId a + w.createdBy srv since tenantId a ev := by
  refine Table.count_balance fun k r r' hr hr' => ?_
  exact ((w.step_writes ev).rowStep_kept hr hr').countsFor (h k r hr)

/-! ## The ceilings -/

/-- Where all the metadata of the day can be read, the count that a creation makes misses none of its
runs. -/
theorem Db.ofDay_le_countedSince {db : Db} (a : String → Bool) (agentId : String)
    (hall : (db.dayRuns since tenantId).all (fun r => r.simulation.isSome))
    (ha : ∀ x, a x → agentId = "" ∨ x = agentId) :
    db.ofDay since tenantId a ≤ db.countedSince since tenantId agentId := by
  unfold Db.ofDay Db.countedSince Db.dayRuns
  rw [List.countP_filter]
  refine List.countP_mono_left fun r hr hcounts => ?_
  simp only [Run.countsFor, Bool.and_eq_true, decide_eq_true_eq] at hcounts
  obtain ⟨⟨⟨hday, htenant⟩, hsim⟩, hagent⟩ := hcounts
  have hsome := List.all_eq_true.1 hall r (List.mem_filter.2 ⟨hr, by simp [hday, htenant]⟩)
  have hfalse : r.simulation = some false := by
    obtain ⟨b, hb⟩ := Option.isSome_iff_exists.1 hsome
    cases b with
    | false => exact hb
    | true => exact absurd hb hsim
  simp only [hfalse, hday, htenant, decide_true, Bool.true_and, Bool.and_true, Bool.or_eq_true,
    decide_eq_true_eq]
  exact ha r.agentId hagent

/-- The runs of the day of every tenant, and of each of its agents, are within the ceilings that are
positive. -/
structure WithinQuota (tenantCap agentCap : ℤ) (since : String) (db : Db) : Prop where
  tenant : 0 < tenantCap → ∀ tenantId, (db.ofDay since tenantId (fun _ => true) : ℤ) ≤ tenantCap
  agent : 0 < agentCap → ∀ tenantId agentId,
    (db.ofDay since tenantId (fun x => x = agentId) : ℤ) ≤ agentCap

/-- The daily ceilings are these, for the day that starts at `since`. -/
def fixedDay (tenantCap agentCap : ℤ) (since : String) (caps : RunAdmissionCaps) : Bool :=
  caps.tenantDaily = tenantCap && caps.agentDaily = agentCap && caps.dayStart = since

theorem World.ofDay_admitted (srv : Server) (h : MarkedDay since w.db) {p : RunAdmissionCaps → Bool}
    (hev : ev.under p) (tenantId : String) (a : String → Bool) :
    (w.step srv ev).db.ofDay since tenantId a ≤ w.db.ofDay since tenantId a ∨
      (w.step srv ev).db.ofDay since tenantId a ≤ w.db.ofDay since tenantId a + 1 ∧
        ∃ caps agentId, p caps ∧ a agentId ∧ Admitted caps tenantId agentId w.db := by
  refine w.count_step srv hev tenantId a _ (fun r hr => ?_) fun k r r' hr hstep hr' => ?_
  · simp only [Run.countsFor, Bool.and_eq_true, decide_eq_true_eq] at hr
    exact ⟨hr.1.1.2, hr.2⟩
  · rwa [← hstep.countsFor (h k r hr)]

theorem WithinQuota.step {tenantCap agentCap : ℤ} (h : WithinQuota tenantCap agentCap since w.db)
    (hmarked : MarkedDay since w.db) (hev : ev.under (fixedDay tenantCap agentCap since)) :
    WithinQuota tenantCap agentCap since (w.step srv ev).db where
  tenant hpos tenantId := by
    have hbefore := h.tenant hpos tenantId
    rcases World.ofDay_admitted srv hmarked hev tenantId fun _ => true with
      hle | ⟨hle, caps, agentId, hcaps, -, hadmitted⟩
    · omega
    · simp only [fixedDay, Bool.and_eq_true, decide_eq_true_eq] at hcaps
      obtain ⟨⟨rfl, rfl⟩, rfl⟩ := hcaps
      obtain ⟨hall, hroom⟩ := hadmitted.tenantDaily hpos
      have hcount := Db.ofDay_le_countedSince (fun _ => true) "" hall fun _ _ => .inl rfl
      omega
  agent hpos tenantId agentId := by
    have hbefore := h.agent hpos tenantId agentId
    rcases World.ofDay_admitted srv hmarked hev tenantId fun x => x = agentId with
      hle | ⟨hle, caps, agentId', hcaps, hagent, hadmitted⟩
    · omega
    · obtain rfl := of_decide_eq_true hagent
      simp only [fixedDay, Bool.and_eq_true, decide_eq_true_eq] at hcaps
      obtain ⟨⟨rfl, rfl⟩, rfl⟩ := hcaps
      obtain ⟨hall, _⟩ := hadmitted.agentDaily hpos
      have hcount := Db.ofDay_le_countedSince (fun x => x = agentId') agentId' hall
        fun _ hx => .inr (of_decide_eq_true hx)
      omega

theorem daily_quota (srv : Server) (tenantCap agentCap : ℤ) (dayStart : String) (w : World)
    (evs : List Event) (hstart : ∀ r ∈ w.db.runs.rows, r.createdAt < dayStart)
    (hcaps : ∀ ev ∈ evs, ev.under (fixedDay tenantCap agentCap dayStart) = true)
    (tenantId agentId : String) : (0 < tenantCap →
      (Trace.total (World.step srv) (World.createdBy srv dayStart tenantId fun _ => true) evs w : ℤ) ≤
        tenantCap +
          Trace.total (World.step srv) (World.deletedBy srv dayStart tenantId fun _ => true) evs w) ∧
    (0 < agentCap →
      (Trace.total (World.step srv) (World.createdBy srv dayStart tenantId fun x => x = agentId)
          evs w : ℤ) ≤
        agentCap + Trace.total (World.step srv)
          (World.deletedBy srv dayStart tenantId fun x => x = agentId) evs w) := by
  have hnone : ∀ tenantId a, w.db.ofDay dayStart tenantId a = 0 := by
    intro tenantId a
    refine List.countP_eq_zero.2 fun r hr hcounts => ?_
    simp only [Run.countsFor, Bool.and_eq_true, decide_eq_true_eq] at hcounts
    exact absurd hcounts.1.1.1 (not_le_of_gt (hstart r hr))
  have hmarked : MarkedDay dayStart w.db := fun k r hr hday =>
    absurd hday (not_le_of_gt (hstart r (Table.get?_eq_some_iff.1 hr).1))
  have hquota : WithinQuota tenantCap agentCap dayStart w.db := by
    constructor
    · intro hpos tenantId
      rw [hnone]
      exact hpos.le
    · intro hpos tenantId agentId
      rw [hnone]
      exact hpos.le
  have hevery : Trace.Every (World.step srv)
      (fun ev _ => ev.under (fixedDay tenantCap agentCap dayStart)) evs w :=
    Trace.every_of_mem hcaps
  have hfinal : WithinQuota tenantCap agentCap dayStart (Trace.run (World.step srv) evs w).db :=
    (@Trace.invariant _ _ _ _
      (fun w => MarkedDay dayStart w.db ∧ WithinQuota tenantCap agentCap dayStart w.db)
      (fun _ _ hev h => ⟨h.1.step, h.2.step h.1 hev⟩) _ _ hevery ⟨hmarked, hquota⟩).2
  have hbalance : ∀ a, (Trace.run (World.step srv) evs w).db.ofDay dayStart tenantId a +
      Trace.total (World.step srv) (World.deletedBy srv dayStart tenantId a) evs w =
      Trace.total (World.step srv) (World.createdBy srv dayStart tenantId a) evs w := by
    intro a
    have h := @Trace.balance_total _ _ _ _ (fun w => MarkedDay dayStart w.db)
      (fun w => w.db.ofDay dayStart tenantId a) _ _ (fun _ _ _ h => h.step)
      (fun _ _ _ h => World.ofDay_step h) _ _ hevery hmarked
    rwa [hnone, Nat.zero_add] at h
  constructor
  · intro hpos
    have := hfinal.tenant hpos tenantId
    have := hbalance fun _ => true
    omega
  · intro hpos
    have := hfinal.agent hpos tenantId agentId
    have := hbalance fun x => x = agentId
    omega

/-! ## A deletion in between -/

/-- A run is created, canceled with rollback, and another one created. -/
def createCancelCreate : List Event :=
  let env : Env := { caps := some { tenantDaily := 1, dayStart := "2026-01-02T00:00:00Z" } }
  [.create {} { agentId := "a", ifNotExists := .create } "t1" "r1" "2026-01-02T01:00:00Z"] ++
  List.replicate 8 (.proceed 0 env) ++ [.cancel {} "r1" true] ++ List.replicate 6 (.proceed 1 env) ++
  [.create {} { agentId := "a", ifNotExists := .create } "t2" "r2" "2026-01-02T02:00:00Z"] ++
  List.replicate 8 (.proceed 2 env)

theorem daily_quota_rollback : Trace.total (World.step {})
      (World.deletedBy {} "2026-01-02T00:00:00Z" "default" fun _ => true) createCancelCreate {} = 1 ∧
    (Trace.total (World.step {})
      (World.createdBy {} "2026-01-02T00:00:00Z" "default" fun _ => true) createCancelCreate {} : ℤ) ≤
        1 + Trace.total (World.step {})
          (World.deletedBy {} "2026-01-02T00:00:00Z" "default" fun _ => true) createCancelCreate {} :=
  ⟨by decide +kernel, (daily_quota {} 1 0 "2026-01-02T00:00:00Z" {} createCancelCreate
    (fun _ hr => by cases hr) (by decide +kernel) "default" "a").1 (by decide)⟩

/-- Two runs are created on a day on which the tenant may have one. -/
theorem quota_exceeded_by_deletion :
    (∀ ev ∈ createCancelCreate, ev.under (fixedDay 1 0 "2026-01-02T00:00:00Z") = true) ∧
    Trace.total (World.step {})
      (World.createdBy {} "2026-01-02T00:00:00Z" "default" fun _ => true) createCancelCreate {} = 2 := by
  decide +kernel

end Runkite
