import Runkite.Ranking
import Runkite.ThreadValues
import Runkite.Timestamps

/-!
# The history of a thread

`GetLatestCheckpoint`, `ListCheckpoints` and `PruneCheckpoints` read and keep the checkpoints of a
thread by `created_at`, a text. `ListCheckpoints` takes the id of a checkpoint to list before, and
looks up that checkpoint's time in the whole table.

`history_agrees_iff` is about what a tenant is shown of the rows of others, `followsTime_iff` about the
order of the history in time.
-/

open Json (Members Number Text Value encode marshal unmarshalMap decodeNumber)
open Timestamps (Instant newYear)
open Timestamps.Instant (Confused)

namespace Runkite

open Checkpoint

/-! ## The statements -/

/-- The checkpoints of a thread that a context sees. -/
def Db.checkpointsOf (ctx : Ctx) (threadId : String) (db : Db) : List Checkpoint :=
  db.checkpoints.rows.filter fun c => c.threadId = threadId && ctx.sees c.tenantId

/-- `fillCheckpoint` : the values, tasks and interrupts have to decode. -/
def Checkpoint.decodes (c : Checkpoint) : Bool :=
  (unmarshalMap decodeNumber c.values).isSome && decodesArray c.tasks && decodesArray c.interrupts

/-- The condition on `created_at` of a list before a checkpoint. Without such a checkpoint the
subquery is `NULL`, which no row is less than. -/
def Db.precedes (before : String) (db : Db) (c : Checkpoint) : Bool :=
  before = "" || match db.checkpoints.get? before with
    | some b => c.createdAt < b.createdAt
    | none => false

/-- `ORDER BY created_at DESC`, rows with the same text in the order of the table. -/
def newestText (rows : List Checkpoint) : List Checkpoint :=
  (Ranking.stable : Ranking Checkpoint.createdAt).sort rows

def pageLimit (limit : ℤ) : ℕ := if limit ≤ 0 then 10 else limit.toNat

/-- The rows that `ListCheckpoints` reads. -/
def Db.page (ctx : Ctx) (threadId : String) (limit : ℤ) (before : String) (db : Db) :
    List Checkpoint :=
  (newestText ((db.checkpointsOf ctx threadId).filter (db.precedes before))).take (pageLimit limit)

def listCheckpoints (ctx : Ctx) (threadId : String) (limit : ℤ) (before : String) (db : Db) :
    Except StoreError (List Checkpoint) :=
  if (db.page ctx threadId limit before).all Checkpoint.decodes then
    .ok (db.page ctx threadId limit before)
  else .error .json

/-- `PruneCheckpoints`. The order of rows with the same text is not specified, so it is an
argument. -/
def pruneCheckpoints (ctx : Ctx) (keepLast : ℤ) (order : Ranking Checkpoint.createdAt) (db : Db) :
    Db :=
  if keepLast ≤ 0 then db
  else { db with checkpoints := db.checkpoints.delete fun c =>
    c.checkpointId ∈
      (order.beyond keepLast.toNat (db.checkpointsOf ctx c.threadId)).map Checkpoint.checkpointId }

/-! ## What a tenant is shown -/

/-- Two states have the same rows of a tenant. -/
structure Db.Agree (tenant : String) (db db' : Db) : Prop where
  threads : db.threads.rows.filter (·.tenantId = tenant) =
    db'.threads.rows.filter (·.tenantId = tenant)
  runs : db.runs.rows.filter (·.tenantId = tenant) = db'.runs.rows.filter (·.tenantId = tenant)
  checkpoints : db.checkpoints.rows.filter (·.tenantId = tenant) =
    db'.checkpoints.rows.filter (·.tenantId = tenant)

variable {c : Checkpoint}

namespace Db

variable {tenant threadId before : String} {limit : ℤ} {db db' : Db}

theorem history_eq (tenant threadId : String) (db : Db) :
    db.checkpointsOf ⟨tenant, false⟩ threadId =
      (db.checkpoints.rows.filter (·.tenantId = tenant)).filter (·.threadId = threadId) := by
  rw [checkpointsOf, List.filter_filter]
  refine List.filter_congr fun c _ => ?_
  simp [Ctx.sees, Bool.and_comm]

theorem Agree.history (h : db.Agree tenant db') (threadId : String) :
    db.checkpointsOf ⟨tenant, false⟩ threadId = db'.checkpointsOf ⟨tenant, false⟩ threadId := by
  rw [history_eq, history_eq, h.checkpoints]

theorem Agree.fetchLatestCheckpoint (h : db.Agree tenant db') (threadId : String) :
    Runkite.fetchLatestCheckpoint ⟨tenant, false⟩ threadId db =
      Runkite.fetchLatestCheckpoint ⟨tenant, false⟩ threadId db' := by
  have hrows := h.history threadId
  unfold Db.checkpointsOf at hrows
  simp [Runkite.fetchLatestCheckpoint, hrows]

/-- A tenant's own checkpoint is in both states. -/
theorem Agree.get? (h : db.Agree tenant db') {id : String}
    (hc : db.checkpoints.get? id = some c) (hown : c.tenantId = tenant) :
    db'.checkpoints.get? id = some c := by
  obtain ⟨hmem, hid⟩ := Table.get?_eq_some_iff.1 hc
  have hfilter : c ∈ db.checkpoints.rows.filter (·.tenantId = tenant) :=
    List.mem_filter.2 ⟨hmem, by simpa using hown⟩
  rw [h.checkpoints] at hfilter
  exact Table.get?_eq_some_iff.2 ⟨(List.mem_filter.1 hfilter).1, hid⟩

/-- The checkpoint to list before is not another tenant's, or makes no difference. -/
def OwnBefore (tenant threadId before : String) (db : Db) : Prop :=
  before = "" ∨ (∃ c, db.checkpoints.get? before = some c ∧ c.tenantId = tenant) ∨
    db.checkpointsOf ⟨tenant, false⟩ threadId = []

theorem Agree.page (h : db.Agree tenant db') (hbefore : db.OwnBefore tenant threadId before)
    (limit : ℤ) : db.page ⟨tenant, false⟩ threadId limit before =
      db'.page ⟨tenant, false⟩ threadId limit before := by
  unfold Db.page
  rw [← h.history threadId]
  rcases hbefore with rfl | ⟨c, hc, hown⟩ | hnil
  · have hall : ∀ db : Db, db.precedes "" = fun _ => true := fun db => by
      funext c
      simp [precedes]
    rw [hall, hall]
  · have hsame : db.precedes before = db'.precedes before := by
      funext r
      rw [precedes, precedes, hc, h.get? hc hown]
    rw [hsame]
  · rw [hnil]
    rfl

/-! ### A state in which another tenant's checkpoint counts -/

/-- The state without the checkpoint. -/
def without (id : String) (db : Db) : Db :=
  { db with checkpoints := db.checkpoints.delete fun c => c.checkpointId = id }

/-- Another tenant's checkpoint, later than `c`. -/
def later (id : String) (c : Checkpoint) : Checkpoint :=
  { c with
    checkpointId := id, tenantId := c.tenantId ++ "~", createdAt := c.createdAt ++ "~" }

theorem get?_without (id : String) (db : Db) : (db.without id).checkpoints.get? id = none := by
  refine Table.get?_eq_none_iff.2 fun c hc hid => ?_
  simpa [hid] using (List.mem_filter.1 hc).2

/-- The state in which another tenant has the checkpoint. -/
theorem exists_later (id : String) (c : Checkpoint) (db : Db) :
    ∃ db' : Db, db'.threads = db.threads ∧ db'.runs = db.runs ∧
      db'.checkpoints.rows = (db.without id).checkpoints.rows ++ [later id c] := by
  have hfree : (later id c).checkpointId ∉ (db.without id).checkpoints.rows.map
      checkpointId := by
    intro hmem
    obtain ⟨r, hr, hid⟩ := List.mem_map.1 hmem
    exact Table.get?_eq_none_iff.1 (db.get?_without id) r hr hid
  refine ⟨{ db with checkpoints := ⟨(db.without id).checkpoints.rows ++ [later id c], ?_⟩ },
    rfl, rfl, rfl⟩
  rw [List.map_append, List.nodup_append]
  refine ⟨(db.without id).checkpoints.nodup, List.nodup_singleton _, ?_⟩
  rintro a ha b hb rfl
  rw [List.map_singleton, List.mem_singleton] at hb
  exact hfree (hb ▸ ha)

theorem lt_append_tilde (s : String) : s < s ++ "~" := by
  rw [String.lt_iff_toList_lt, String.toList_append]
  have h : s.toList ++ [] < s.toList ++ "~".toList := List.append_left_lt (by decide)
  rwa [List.append_nil] at h

theorem agree_without {id : String} (hother : ∀ c, db.checkpoints.get? id = some c →
    c.tenantId ≠ tenant) : db.Agree tenant (db.without id) where
  threads := rfl
  runs := rfl
  checkpoints := by
    rw [without, Table.delete, List.filter_filter]
    refine List.filter_congr fun c hc => ?_
    by_cases hid : c.checkpointId = id
    · have hne := hother c (Table.get?_eq_some_iff.2 ⟨hc, hid⟩)
      simp [hid, hne]
    · simp [hid]

/-- There is a state with the same rows of the tenant in which something precedes the
checkpoint. -/
theorem exists_agree_precedes {id : String}
    (hother : ∀ r, db.checkpoints.get? id = some r → r.tenantId ≠ tenant)
    (hc : c ∈ db.checkpointsOf ⟨tenant, false⟩ threadId) :
    ∃ db', db.Agree tenant db' ∧ c ∈ db'.checkpointsOf ⟨tenant, false⟩ threadId ∧ db'.precedes id c := by
  obtain ⟨db', hthreads, hruns, hrows⟩ := db.exists_later id c
  have hagree : db.Agree tenant db' := by
    refine ⟨by rw [hthreads], by rw [hruns], ?_⟩
    have hown : c.tenantId = tenant := by
      rw [history_eq, List.mem_filter, List.mem_filter] at hc
      simpa using hc.1.2
    have hnot : (later id c).tenantId ≠ tenant := hown ▸ (lt_append_tilde c.tenantId).ne'
    rw [hrows, List.filter_append, List.filter_singleton, (agree_without hother).checkpoints]
    simp [hnot]
  refine ⟨db', hagree, hagree.history threadId ▸ hc, ?_⟩
  have hget : db'.checkpoints.get? id = some (later id c) :=
    Table.get?_eq_some_iff.2 ⟨by rw [hrows]; simp, rfl⟩
  simp only [precedes, hget, Bool.or_eq_true, decide_eq_true_eq]
  exact .inr (lt_append_tilde c.createdAt)

theorem page_without (hbefore : before ≠ "") (ctx : Ctx) (limit : ℤ) :
    (db.without before).page ctx threadId limit before = [] := by
  have hnone : (db.without before).precedes before = fun _ => false := by
    funext c
    simp [precedes, hbefore, get?_without]
  have hnil : newestText [] = [] := rfl
  rw [page, hnone, List.filter_false, hnil, List.take_nil]

theorem mem_newestText {rows : List Checkpoint} : c ∈ newestText rows ↔ c ∈ rows :=
  ((Ranking.stable : Ranking createdAt).perm rows).mem_iff

theorem page_ne_nil {ctx : Ctx} (hc : c ∈ db.checkpointsOf ctx threadId)
    (hprecedes : db.precedes before c) (limit : ℤ) : db.page ctx threadId limit before ≠ [] := by
  have hmem : c ∈ newestText ((db.checkpointsOf ctx threadId).filter (db.precedes before)) :=
    mem_newestText.2 (List.mem_filter.2 ⟨hc, hprecedes⟩)
  have hpos : 0 < pageLimit limit := by
    unfold pageLimit
    split_ifs <;> omega
  obtain ⟨d, _, hd⟩ := List.exists_cons_of_ne_nil (List.ne_nil_of_mem hmem)
  obtain ⟨n, hn⟩ : ∃ n, pageLimit limit = n + 1 := ⟨pageLimit limit - 1, by omega⟩
  rw [page, hd, hn, List.take_succ_cons]
  exact List.cons_ne_nil _ _

end Db

variable {limit : ℤ}

theorem listCheckpoints_eq_nil_iff {ctx : Ctx} {threadId before : String} {db : Db} :
    listCheckpoints ctx threadId limit before db = .ok [] ↔
      db.page ctx threadId limit before = [] := by
  unfold listCheckpoints
  constructor
  · intro h
    split_ifs at h
    exact Except.ok.inj h
  · intro h
    rw [h]
    rfl

/-- What a tenant is shown in a state is what it is shown in every state with the same rows of its
own, exactly if the list begins at a checkpoint of its own, at no given one, or is empty. -/
theorem history_agrees_iff (tenant threadId before : String) (limit : ℤ) (db : Db) :
    (∀ db', db.Agree tenant db' →
        listCheckpoints ⟨tenant, false⟩ threadId limit before db' =
          listCheckpoints ⟨tenant, false⟩ threadId limit before db ∧
        fetchLatestCheckpoint ⟨tenant, false⟩ threadId db' =
          fetchLatestCheckpoint ⟨tenant, false⟩ threadId db) ↔
      db.OwnBefore tenant threadId before := by
  constructor
  · intro hsame
    by_contra hnot
    simp only [Db.OwnBefore, not_or, not_exists, not_and] at hnot
    obtain ⟨hbefore, hother, hne⟩ := hnot
    obtain ⟨c, hc⟩ := List.exists_mem_of_ne_nil _ hne
    have hagree := Db.agree_without hother
    -- Without the checkpoint nothing is listed.
    have hempty : listCheckpoints ⟨tenant, false⟩ threadId limit before (db.without before) =
        .ok [] := listCheckpoints_eq_nil_iff.2 (Db.page_without hbefore _ limit)
    -- With one of another tenant that is later than `c`, something is.
    obtain ⟨db', hagree', hc', hprecedes⟩ := Db.exists_agree_precedes hother hc
    rw [(hsame _ hagree).1, ← (hsame _ hagree').1] at hempty
    exact Db.page_ne_nil hc' hprecedes limit (listCheckpoints_eq_nil_iff.1 hempty)
  · intro hbefore db' hagree
    refine ⟨?_, (hagree.fetchLatestCheckpoint threadId).symm⟩
    rw [listCheckpoints, listCheckpoints, hagree.page hbefore limit]

/-- A checkpoint with nothing in it. -/
def bareCheckpoint (tenantId checkpointId createdAt : String) : Checkpoint where
  tenantId := tenantId
  checkpointId := checkpointId
  threadId := "thread"
  checkpointNs := ""
  parentId := none
  values := .document .null
  metadata := .document .null
  nextNodes := .document .null
  tasks := .document .null
  interrupts := .document .null
  createdAt := createdAt

/-- One tenant has a checkpoint, and another may have one of a later time. -/
def foreignCheckpoint (other : Bool) : Db :=
  { threads := .empty
    runs := .empty
    checkpoints :=
      ⟨bareCheckpoint "acme" "mine" "2026-01-01T00:00:01.5Z" ::
        if other then [bareCheckpoint "globex" "theirs" "2026-01-01T00:00:02.5Z"] else [],
        by cases other <;> decide⟩ }

/-- The list before the other tenant's checkpoint tells whether it is there. -/
theorem foreignCheckpoint_shows : (foreignCheckpoint true).Agree "acme" (foreignCheckpoint false) ∧
      (listCheckpoints ⟨"acme", false⟩ "thread" 10 "theirs" (foreignCheckpoint true)).toOption.map
        (List.map Checkpoint.checkpointId) = some ["mine"] ∧
      (listCheckpoints ⟨"acme", false⟩ "thread" 10 "theirs" (foreignCheckpoint false)).toOption.map
        (List.map Checkpoint.checkpointId) = some [] := by
  refine ⟨⟨rfl, rfl, rfl⟩, ?_, ?_⟩
  · decide +kernel
  · decide +kernel

/-! ## The history and time -/

/-- The text a caller gives, or that of the clock. -/
def nilOrNow (given : Option String) (now : Instant) : String :=
  match given with
  | some text => if text ≠ "" then text else now.rfc3339Nano
  | none => now.rfc3339Nano

/-- A checkpoint as `SaveCheckpoint` and the completion of a run write it : it decodes, and its time
is the text of an instant. -/
structure Written where
  row : Checkpoint
  instant : Instant
  createdAt : row.createdAt = instant.rfc3339Nano
  decodes : row.decodes

def sliceText (items : Option (List (Value Number))) : Text :=
  (marshal (items.elim .null .array)).getD .empty

theorem isSome_unmarshalMap_valuesText (values : Option (Members Number)) :
    (unmarshalMap decodeNumber (valuesText values)).isSome := by
  cases values with
  | none => rfl
  | some ms =>
    obtain ⟨ws, hws⟩ := Option.isSome_iff_exists.1
      (@Json.isSome_traverseMembers _ _ _ Members.sortKeys _
        (Json.allMembers_of_forall Number.isSome_encode ms))
    have hread : ∀ ws, (Json.traverseMembers decodeNumber Members.lastWins ws).isSome := fun ws =>
      Json.isSome_traverseMembers (Json.allMembers_of_forall (fun _ => rfl) ws)
    simp [valuesText, marshal, encode, Json.traverse, hws, unmarshalMap, hread]

theorem decodesArray_sliceText (items : Option (List (Value Number))) :
    decodesArray (sliceText items) := by
  cases items with
  | none => rfl
  | some vs =>
    obtain ⟨ws, hws⟩ := Option.isSome_iff_exists.1
      (@Json.isSome_traverseItems _ _ _ Members.sortKeys _
        (Json.allItems_of_forall Number.isSome_encode vs))
    simp [sliceText, marshal, encode, Json.traverse, hws, decodesArray]

/-- What `SaveCheckpoint` writes, with the time its caller gives or its own. -/
def Written.save (c : Checkpoint) (values : Option (Members Number))
    (tasks interrupts : Option (List (Value Number))) (given : Option Instant) (now : Instant) :
    Written where
  row := { c with
    values := valuesText values
    tasks := sliceText tasks
    interrupts := sliceText interrupts
    createdAt := nilOrNow (given.map Instant.rfc3339Nano) now }
  instant := given.getD now
  createdAt := by
    cases given with
    | none => rfl
    | some t => exact if_pos t.rfc3339Nano_ne_empty
  decodes := by
    simp [Checkpoint.decodes, isSome_unmarshalMap_valuesText, decodesArray_sliceText]

open Written

/-- What the completion of a run writes. -/
def Written.complete (l : Loaded) (runId : String) (parent : Option Checkpoint) (values : Json.Text)
    (hvalues : (unmarshalMap decodeNumber values).isSome) (now : Instant) : Written where
  row := completionCheckpoint l runId parent values now.rfc3339Nano
  instant := now
  createdAt := rfl
  decodes := by
    simpa [Checkpoint.decodes, completionCheckpoint, decodesArray, emptyArray] using hvalues

/-- Newest first, by the instants. -/
def newestFirst (ws : List Written) : List Written :=
  ws.insertionSort fun a b => b.instant ≤ a.instant

/-- The checkpoints `ws` of a thread are read and kept by the instants they were written at. -/
structure FollowsTime (ctx : Ctx) (threadId : String) (db : Db) (ws : List Written) : Prop where
  latest : ∀ w ∈ ws, (∀ v ∈ ws, v.instant ≤ w.instant) →
    fetchLatestCheckpoint ctx threadId db = .ok w.row
  list : ∀ limit, listCheckpoints ctx threadId limit "" db =
    .ok (((newestFirst ws).take (pageLimit limit)).map Written.row)
  listBefore : ∀ w ∈ ws, w.row.checkpointId ≠ "" → ∀ limit,
    listCheckpoints ctx threadId limit w.row.checkpointId db =
      .ok (((newestFirst (ws.filter (·.instant < w.instant))).take (pageLimit limit)).map Written.row)
  prune : ∀ keepLast ≥ 1, ∀ order, ∀ w ∈ ws,
    (w.row ∈ (pruneCheckpoints ctx keepLast order db).checkpointsOf ctx threadId ↔
      w ∈ (newestFirst ws).take keepLast.toNat)

variable {ctx : Ctx} {threadId : String} {db : Db} {ws : List Written}

/-- The texts of the checkpoints have the order of their instants. -/
def InOrder (ws : List Written) : Prop :=
  ∀ a ∈ ws, ∀ b ∈ ws, (a.row.createdAt < b.row.createdAt ↔ a.instant < b.instant)

theorem inOrder_iff (ws : List Written) :
    InOrder ws ↔ ∀ a ∈ ws, ∀ b ∈ ws, ¬ Confused a.instant b.instant := by
  unfold InOrder
  refine forall₂_congr fun a _ => forall₂_congr fun b _ => ?_
  rw [a.createdAt, b.createdAt, Instant.text_lt_iff]
  by_cases h : Confused a.instant b.instant
  · have hne : a.instant ≠ b.instant := by
      intro heq
      rw [heq] at h
      exact Instant.not_confused_self _ h
    simp only [h, if_true, not_true_eq_false, iff_false]
    intro hiff
    rcases lt_or_gt_of_ne hne with hlt | hgt
    · exact (hiff.2 hlt).not_gt hlt
    · exact (hiff.1 hgt).not_gt hgt
  · simp [h]

theorem perm_newestFirst (ws : List Written) : (newestFirst ws).Perm ws :=
  List.perm_insertionSort _ _

theorem pairwise_newestFirst (ws : List Written) :
    (newestFirst ws).Pairwise fun a b => b.instant ≤ a.instant :=
  Ranking.pairwise_sort_key (fun w : Written => OrderDual.toDual w.instant) ws

theorem InOrder.filter (h : InOrder ws) (p : Written → Bool) : InOrder (ws.filter p) :=
  fun a ha b hb => h a (List.mem_of_mem_filter ha) b (List.mem_of_mem_filter hb)

/-- Numbering the rows by their texts puts the newest first. -/
theorem sort_eq_newestFirst (order : Ranking createdAt)
    (hdistinct : (ws.map instant).Nodup) (horder : InOrder ws) :
    order.sort (ws.map row) = (newestFirst ws).map row := by
  have hperm := perm_newestFirst ws
  refine List.Perm.eq_of_pairwise ?_ (order.sorted _) ?_
    ((order.perm _).trans (hperm.map _).symm)
  · intro a b ha hb hab hba
    obtain ⟨v, hv, rfl⟩ := List.mem_map.1 ((order.perm _).mem_iff.1 ha)
    obtain ⟨w, hw, rfl⟩ := List.mem_map.1 hb
    have heq : v.row.createdAt = w.row.createdAt := le_antisymm hba hab
    rw [v.createdAt, w.createdAt] at heq
    rw [List.inj_on_of_nodup_map hdistinct hv (hperm.mem_iff.1 hw)
      (Instant.rfc3339Nano_injective heq)]
  · rw [List.pairwise_map]
    refine (pairwise_newestFirst ws).imp_of_mem fun {a b} ha hb hle => ?_
    rw [← not_lt, horder a (hperm.mem_iff.1 ha) b (hperm.mem_iff.1 hb), not_lt]
    exact hle

/-- Of two items of a list one comes first. -/
theorem pairwise_or {α : Type} {R : α → α → Prop} {l : List α} (h : l.Pairwise R) {a b : α}
    (ha : a ∈ l) (hb : b ∈ l) (hne : a ≠ b) : R a b ∨ R b a := by
  have hor : l.Pairwise fun a b => R a b ∨ R b a := h.imp .inl
  have hsymm : Std.Symm fun a b => R a b ∨ R b a := ⟨fun _ _ => Or.symm⟩
  exact hor.forall ha hb hne

theorem inOrder_of_newestText
    (h : newestText (ws.map row) = (newestFirst ws).map row) : InOrder ws := by
  have hsorted := (Ranking.stable : Ranking createdAt).sorted (ws.map row)
  change (newestText _).Pairwise _ at hsorted
  rw [h, List.pairwise_map] at hsorted
  have hboth := (pairwise_newestFirst ws).and hsorted
  have hpair : ∀ a ∈ ws, ∀ b ∈ ws, a.instant < b.instant →
      a.row.createdAt < b.row.createdAt := by
    intro a ha b hb hlt
    have hmem := perm_newestFirst ws
    have hne : a ≠ b := fun heq => hlt.ne (congrArg instant heq)
    -- One of the two comes first, and it cannot be the older one.
    have htwo : (b.instant ≤ a.instant ∧ b.row.createdAt ≤ a.row.createdAt) ∨
        (a.instant ≤ b.instant ∧ a.row.createdAt ≤ b.row.createdAt) :=
      pairwise_or hboth (hmem.mem_iff.2 ha) (hmem.mem_iff.2 hb) hne
    rcases htwo with ⟨hle, -⟩ | ⟨-, hle⟩
    · exact absurd hlt hle.not_gt
    · refine lt_of_le_of_ne hle fun heq => hlt.ne ?_
      rw [a.createdAt, b.createdAt] at heq
      exact Instant.rfc3339Nano_injective heq
  intro a ha b hb
  refine ⟨fun hlt => ?_, hpair a ha b hb⟩
  rcases lt_trichotomy a.instant b.instant with h | h | h
  · exact h
  · rw [a.createdAt, b.createdAt, h] at hlt
    exact absurd hlt (lt_irrefl _)
  · exact absurd (hpair b hb a ha h) hlt.not_gt

theorem listCheckpoints_of_decodes {before : String}
    (h : ∀ c ∈ db.checkpointsOf ctx threadId, c.decodes) :
    listCheckpoints ctx threadId limit before db = .ok (db.page ctx threadId limit before) := by
  refine if_pos (List.all_eq_true.2 fun c hc => h c ?_)
  have hmem := Db.mem_newestText.1 (List.mem_of_mem_take hc)
  exact (List.mem_filter.1 hmem).1

/-- The newest of some rows, if it is newer than all the others. -/
theorem foldl_newest {f : Option Checkpoint → Checkpoint → Option Checkpoint}
    (hnone : ∀ r, f none r = some r)
    (hsome : ∀ b r, f (some b) r = if b.createdAt < r.createdAt then some r else some b)
    : ∀ {rows : List Checkpoint} {best : Option Checkpoint},
    (∀ r ∈ rows, r = c ∨ r.createdAt < c.createdAt) →
    (∀ b, best = some b → b = c ∨ b.createdAt < c.createdAt) → (best = some c ∨ c ∈ rows) →
    rows.foldl f best = some c
  | [], _, _, _, hc => by
    rcases hc with h | h
    · exact h
    · cases h
  | r :: rows, best, hrows, hbest, hc => by
    have hr := hrows r List.mem_cons_self
    have hrest := fun x hx => hrows x (List.mem_cons_of_mem r hx)
    rw [List.foldl_cons]
    rcases best with _ | b
    · rw [hnone]
      refine foldl_newest hnone hsome hrest (fun b hb => Option.some.inj hb ▸ hr) ?_
      rcases hc with h | h
      · cases h
      · rcases List.mem_cons.1 h with rfl | h
        · exact .inl rfl
        · exact .inr h
    · have hb := hbest b rfl
      rw [hsome]
      by_cases hlt : b.createdAt < r.createdAt
      · rw [if_pos hlt]
        refine foldl_newest hnone hsome hrest (fun b hb => Option.some.inj hb ▸ hr) ?_
        rcases hc with h | h
        · cases h
          rcases hr with rfl | hr
          · exact .inl rfl
          · exact absurd hlt hr.not_gt
        · rcases List.mem_cons.1 h with rfl | h
          · exact .inl rfl
          · exact .inr h
      · rw [if_neg hlt]
        refine foldl_newest hnone hsome hrest hbest ?_
        rcases hc with h | h
        · exact .inl h
        · rcases List.mem_cons.1 h with rfl | h
          · rcases hb with rfl | hb
            · exact .inl rfl
            · exact absurd hb hlt
          · exact .inr h

theorem fetchLatestCheckpoint_of_newest (hc : c ∈ db.checkpointsOf ctx threadId)
    (hnewest : ∀ r ∈ db.checkpointsOf ctx threadId, r = c ∨ r.createdAt < c.createdAt)
    (hdecodes : c.decodes) : fetchLatestCheckpoint ctx threadId db = .ok c := by
  unfold Db.checkpointsOf at hnewest hc
  unfold fetchLatestCheckpoint
  rw [foldl_newest (fun _ => rfl) (fun _ _ => rfl) hnewest (by simp) (.inr hc)]
  exact if_pos hdecodes

/-- The thread has exactly the checkpoints `ws`, written at distinct instants. -/
structure Recorded (ctx : Ctx) (threadId : String) (db : Db) (ws : List Written) : Prop where
  history : db.checkpointsOf ctx threadId = ws.map Written.row
  distinct : (ws.map Written.instant).Nodup

namespace Recorded

variable (h : Recorded ctx threadId db ws)
include h

theorem decodes : ∀ c ∈ db.checkpointsOf ctx threadId, c.decodes := by
  intro c hc
  rw [h.history] at hc
  obtain ⟨w, -, rfl⟩ := List.mem_map.1 hc
  exact w.decodes

variable {w : Written}

theorem mem_history (hw : w ∈ ws) : w.row ∈ db.checkpointsOf ctx threadId := by
  rw [h.history]
  exact List.mem_map_of_mem hw

theorem nodup_ids : (ws.map fun w => w.row.checkpointId).Nodup := by
  have hrows : ((db.checkpointsOf ctx threadId).map checkpointId).Nodup :=
    db.checkpoints.nodup.sublist (List.filter_sublist.map _)
  rwa [h.history, List.map_map] at hrows

theorem latest (horder : InOrder ws) (hw : w ∈ ws) (hmax : ∀ v ∈ ws, v.instant ≤ w.instant) :
    fetchLatestCheckpoint ctx threadId db = .ok w.row := by
  refine fetchLatestCheckpoint_of_newest (h.mem_history hw) ?_ w.decodes
  intro r hr
  rw [h.history] at hr
  obtain ⟨v, hv, rfl⟩ := List.mem_map.1 hr
  rcases (hmax v hv).lt_or_eq with hlt | heq
  · exact .inr ((horder v hv w hw).2 hlt)
  · exact .inl (congrArg row (List.inj_on_of_nodup_map h.distinct hv hw heq))

theorem list (horder : InOrder ws) (limit : ℤ) : listCheckpoints ctx threadId limit "" db =
      .ok (((newestFirst ws).take (pageLimit limit)).map row) := by
  have hall : db.precedes "" = fun _ => true := by
    funext c
    simp [Db.precedes]
  rw [listCheckpoints_of_decodes h.decodes, Db.page, hall, List.filter_true, h.history, newestText,
    sort_eq_newestFirst _ h.distinct horder, List.map_take]

theorem listBefore (horder : InOrder ws) (hw : w ∈ ws) (hid : w.row.checkpointId ≠ "") (limit : ℤ) :
    listCheckpoints ctx threadId limit w.row.checkpointId db =
      .ok (((newestFirst (ws.filter (·.instant < w.instant))).take (pageLimit limit)).map
        row) := by
  have hget : db.checkpoints.get? w.row.checkpointId = some w.row :=
    Table.mem_iff_get?.1 (List.mem_of_mem_filter (h.mem_history hw))
  have hrows : (db.checkpointsOf ctx threadId).filter (db.precedes w.row.checkpointId) =
      (ws.filter (·.instant < w.instant)).map row := by
    rw [h.history, List.filter_map]
    congr 1
    refine List.filter_congr fun v hv => ?_
    have hlt := horder v hv w hw
    simp only [Function.comp_apply, Db.precedes, hget, hid, decide_false, Bool.false_or]
    exact decide_eq_decide.2 hlt
  rw [listCheckpoints_of_decodes h.decodes, Db.page, hrows, newestText,
    sort_eq_newestFirst _ (h.distinct.sublist (List.filter_sublist.map _)) (horder.filter _),
    List.map_take]

theorem prune (horder : InOrder ws) {keepLast : ℤ} (hkeep : keepLast ≥ 1)
    (order : Ranking createdAt) (hw : w ∈ ws) :
    w.row ∈ (pruneCheckpoints ctx keepLast order db).checkpointsOf ctx threadId ↔
      w ∈ (newestFirst ws).take keepLast.toNat := by
  have hmem := h.mem_history hw
  have hthread : w.row.threadId = threadId ∧ ctx.sees w.row.tenantId := by
    simpa [Db.checkpointsOf] using (List.mem_filter.1 hmem).2
  have hbeyond : order.beyond keepLast.toNat (db.checkpointsOf ctx threadId) =
      ((newestFirst ws).drop keepLast.toNat).map row := by
    rw [Ranking.beyond, h.history, sort_eq_newestFirst order h.distinct horder, List.map_drop]
  -- The ids tell the rows that are kept from those that are not.
  have hnodup : ((newestFirst ws).map fun w => w.row.checkpointId).Nodup :=
    ((perm_newestFirst ws).map _).nodup_iff.2 h.nodup_ids
  have hw' : w ∈ (newestFirst ws).take keepLast.toNat ∨
      w ∈ (newestFirst ws).drop keepLast.toNat := by
    rw [← List.mem_append, List.take_append_drop]
    exact (perm_newestFirst ws).mem_iff.2 hw
  rw [← List.take_append_drop keepLast.toNat (newestFirst ws), List.map_append,
    List.nodup_append] at hnodup
  rw [pruneCheckpoints, if_neg (by omega)]
  simp only [Db.checkpointsOf, Table.delete, List.mem_filter] at hmem ⊢
  rw [and_iff_left hmem.2, and_iff_right hmem.1, hthread.1]
  change (!decide (_ ∈ (order.beyond _ (db.checkpointsOf ctx threadId)).map _)) ↔ _
  rw [hbeyond, List.map_map, Bool.not_eq_true', decide_eq_false_iff_not]
  constructor
  · intro hnot
    rcases hw' with hkept | hdropped
    · exact hkept
    · exact absurd (List.mem_map_of_mem hdropped) hnot
  · intro hkept hdropped
    exact hnodup.2.2 _ (List.mem_map_of_mem hkept) _ hdropped rfl

end Recorded

/-- The history of a thread follows time exactly if no two of its instants are confused in their
texts. -/
theorem followsTime_iff (ctx : Ctx) (threadId : String) (db : Db) (ws : List Written)
    (h : Recorded ctx threadId db ws) :
    FollowsTime ctx threadId db ws ↔ ∀ a ∈ ws, ∀ b ∈ ws, ¬ Confused a.instant b.instant := by
  rw [← inOrder_iff]
  constructor
  · intro hfollows
    have hlist := hfollows.list (ws.length + 1)
    have hlimit : pageLimit (ws.length + 1) = ws.length + 1 := by
      rw [pageLimit, if_neg (by omega)]
      omega
    have hall : db.precedes "" = fun _ => true := by
      funext c
      simp [Db.precedes]
    rw [listCheckpoints_of_decodes h.decodes, Db.page, hall, List.filter_true, hlimit, h.history,
      Except.ok.injEq, List.take_of_length_le, List.take_of_length_le] at hlist
    · exact inOrder_of_newestText hlist
    · rw [(perm_newestFirst ws).length_eq]
      omega
    · rw [newestText, ((Ranking.stable : Ranking createdAt).perm _).length_eq,
        List.length_map]
      omega
  · intro horder
    exact ⟨fun w hw hmax => h.latest horder hw hmax, h.list horder,
      fun w hw hid limit => h.listBefore horder hw hid limit,
      fun keepLast hkeep order w hw => h.prune horder hkeep order hw⟩

/-- Two checkpoints of a thread, the second written after the first. -/
def twoWritten (first second : Instant) : List Written :=
  [.save (bareCheckpoint "acme" "older" "") none none none none first,
    .save (bareCheckpoint "acme" "newer" "") none none none none second]

def twoCheckpoints (first second : Instant) : Db where
  threads := .empty
  runs := .empty
  checkpoints := ⟨(twoWritten first second).map Written.row,
    show ["older", "newer"].Nodup by decide⟩

theorem followsTime_tenths : FollowsTime ⟨"acme", false⟩ "thread"
      (twoCheckpoints (newYear 100000000 (by decide)) (newYear 200000000 (by decide)))
      (twoWritten (newYear 100000000 (by decide)) (newYear 200000000 (by decide))) :=
  (followsTime_iff _ _ _ _ ⟨rfl, by decide +kernel⟩).2 (by decide +kernel)

/-- A checkpoint on the second counts as newer than one half a second later, which a prune to one
checkpoint drops. -/
theorem wholeSecond_shown_latest : newYear 0 (by decide) < newYear 500000000 (by decide) ∧
      (fetchLatestCheckpoint ⟨"acme", false⟩ "thread" (twoCheckpoints (newYear 0 (by decide))
        (newYear 500000000 (by decide)))).toOption.map Checkpoint.checkpointId = some "older" ∧
      (((pruneCheckpoints ⟨"acme", false⟩ 1 Ranking.stable (twoCheckpoints (newYear 0 (by decide))
        (newYear 500000000 (by decide)))).checkpointsOf ⟨"acme", false⟩ "thread").map
          Checkpoint.checkpointId) = ["older"] := by
  refine ⟨by decide +kernel, by decide +kernel, by decide +kernel⟩

end Runkite
