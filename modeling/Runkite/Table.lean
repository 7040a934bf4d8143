import Mathlib.Data.List.Nodup
import Mathlib.Data.List.Perm.Subperm

/-!
# Tables with a primary key

A `Table` is a list of rows in insertion order whose keys are distinct, so a second row
with the same key cannot be built. The operations are the statements a program issues :
`select` the first row a predicate accepts, `update` and `delete` the rows it accepts,
`insert` with the primary-key check, `upsert`, `count`.

Each operation has one lemma that says what `get?` finds afterwards.

A `UniqueTable` has a unique nullable column besides. Its updates may clear the column,
`insertOrIgnore` drops a row whose value is taken, and `upsert` refuses one whose value another
row holds.
-/

/-- Rows of type `ρ` under the primary key `key`. -/
structure Table (ρ κ : Type) (key : ρ → κ) where
  rows : List ρ
  nodup : (rows.map key).Nodup

namespace Table

variable {ρ κ : Type} {key : ρ → κ} {t t' : Table ρ κ key}

/-- No rows. -/
def empty : Table ρ κ key := ⟨[], List.nodup_nil⟩

instance : Inhabited (Table ρ κ key) := ⟨empty⟩

/-- The first row that satisfies `p`. -/
def select (t : Table ρ κ key) (p : ρ → Bool) : Option ρ := t.rows.find? p

/-- How many rows satisfy `p`. -/
def count (t : Table ρ κ key) (p : ρ → Bool) : ℕ := t.rows.countP p

/-- Rewrite the rows that satisfy `p` with `f`, which leaves the key alone. -/
def update (t : Table ρ κ key) (p : ρ → Bool) (f : ρ → ρ) (hf : ∀ r, key (f r) = key r) :
    Table ρ κ key where
  rows := t.rows.map fun r => if p r then f r else r
  nodup := by
    have : (key ∘ fun r => if p r then f r else r) = key := by
      funext r
      by_cases h : p r <;> simp [h, hf]
    rw [List.map_map, this]
    exact t.nodup

/-- Remove the rows that satisfy `p`. -/
def delete (t : Table ρ κ key) (p : ρ → Bool) : Table ρ κ key where
  rows := t.rows.filter fun r => !p r
  nodup := t.nodup.sublist (List.filter_sublist.map key)

/-- The keys of the rows that a count counts. -/
def keysOf (t : Table ρ κ key) (p : ρ → Bool) : List κ := (t.rows.filter p).map key

theorem length_keysOf (t : Table ρ κ key) (p : ρ → Bool) : (t.keysOf p).length = t.count p := by
  rw [keysOf, List.length_map, count, List.countP_eq_length_filter]

theorem nodup_keysOf (t : Table ρ κ key) (p : ρ → Bool) : (t.keysOf p).Nodup :=
  t.nodup.sublist (List.filter_sublist.map key)

section Key

variable [DecidableEq κ] {r : ρ} {k : κ} {p : ρ → Bool}

/-- The row under a key. -/
def get? (t : Table ρ κ key) (k : κ) : Option ρ := t.select fun r => key r = k

/-- Add a row, unless its key is taken. -/
def insert (t : Table ρ κ key) (r : ρ) : Option (Table ρ κ key) :=
  if h : key r ∈ t.rows.map key then none
  else some ⟨t.rows ++ [r], by
    rw [List.map_append, List.nodup_append]
    refine ⟨t.nodup, List.nodup_singleton _, ?_⟩
    rintro a ha b hb rfl
    simp only [List.map_cons, List.map_nil, List.mem_singleton] at hb
    exact h (hb ▸ ha)⟩

theorem get?_eq_some_iff : t.get? k = some r ↔ r ∈ t.rows ∧ key r = k := by
  constructor
  · intro h
    exact ⟨List.mem_of_find?_eq_some h, by simpa using List.find?_some h⟩
  · rintro ⟨hr, rfl⟩
    cases hs : t.get? (key r) with
    | none =>
      have := List.find?_eq_none.mp hs r hr
      simp at this
    | some r' =>
      have hr' : r' ∈ t.rows := List.mem_of_find?_eq_some hs
      have hk : key r' = key r := by simpa using List.find?_some hs
      rw [List.inj_on_of_nodup_map t.nodup hr' hr hk]

theorem mem_iff_get? : r ∈ t.rows ↔ t.get? (key r) = some r := by simp [get?_eq_some_iff]

theorem key_of_get? (h : t.get? k = some r) : key r = k :=
  (get?_eq_some_iff.mp h).2

theorem get?_eq_none_iff : t.get? k = none ↔ ∀ r ∈ t.rows, key r ≠ k := by simp [get?, select]

/-- A condition on the key and a condition on the row under it. -/
theorem select_key_and (t : Table ρ κ key) (k : κ) (p : ρ → Bool) :
    (t.select fun r => key r = k && p r) = (t.get? k).filter p := by
  apply Option.ext
  intro r
  rw [Option.filter_eq_some_iff, get?_eq_some_iff]
  constructor
  · intro h
    have hp := List.find?_some h
    simp only [Bool.and_eq_true, decide_eq_true_eq] at hp
    exact ⟨⟨List.mem_of_find?_eq_some h, hp.1⟩, hp.2⟩
  · rintro ⟨⟨hr, hk⟩, hp⟩
    cases hs : t.select fun r => key r = k && p r with
    | none =>
      have := List.find?_eq_none.mp hs r hr
      simp [hk, hp] at this
    | some r' =>
      have hr' : r' ∈ t.rows := List.mem_of_find?_eq_some hs
      have hk' := List.find?_some hs
      simp only [Bool.and_eq_true, decide_eq_true_eq] at hk'
      rw [List.inj_on_of_nodup_map t.nodup hr' hr (hk'.1.trans hk.symm)]

@[simp] theorem get?_empty (k : κ) : (empty : Table ρ κ key).get? k = none := rfl

theorem get?_update (t : Table ρ κ key) (p : ρ → Bool) (f : ρ → ρ)
    (hf : ∀ r, key (f r) = key r) (k : κ) :
    (t.update p f hf).get? k = (t.get? k).map fun r => if p r then f r else r := by
  simp only [get?, select, update, List.find?_map]
  congr 2
  funext r
  by_cases h : p r <;> simp [h, hf]

theorem get?_delete (t : Table ρ κ key) (p : ρ → Bool) (k : κ) :
    (t.delete p).get? k = (t.get? k).filter fun r => !p r := by
  apply Option.ext
  intro r
  simp only [Option.filter_eq_some_iff, get?_eq_some_iff, delete, List.mem_filter]
  tauto

theorem insert_eq_none_iff : t.insert r = none ↔ ∃ r', t.get? (key r) = some r' := by
  simp [insert, get?_eq_some_iff]

theorem rows_of_insert (h : t.insert r = some t') :
    t.get? (key r) = none ∧ t'.rows = t.rows ++ [r] := by
  unfold insert at h
  split_ifs at h with hk
  cases h
  refine ⟨get?_eq_none_iff.mpr fun r' hr' he => hk ?_, rfl⟩
  exact he ▸ List.mem_map_of_mem hr'

theorem get?_of_insert (h : t.insert r = some t') (k : κ) :
    t'.get? k = if k = key r then some r else t.get? k := by
  obtain ⟨hnone, hrows⟩ := rows_of_insert h
  apply Option.ext
  intro r'
  rw [get?_eq_some_iff, hrows, List.mem_append, List.mem_singleton]
  split_ifs with hk
  · subst hk
    constructor
    · rintro ⟨h | rfl, hkey⟩
      · exact absurd hkey (get?_eq_none_iff.mp hnone r' h)
      · rfl
    · rintro h
      cases h
      exact ⟨.inr rfl, rfl⟩
  · rw [get?_eq_some_iff]
    constructor
    · rintro ⟨h | rfl, hkey⟩
      · exact ⟨h, hkey⟩
      · exact absurd hkey.symm hk
    · rintro ⟨h, hkey⟩
      exact ⟨.inl h, hkey⟩

/-- An insertion leaves the rows that are there. -/
theorem get?_kept_of_insert {r r' : ρ} (h : t.insert r = some t')
    (hr : t.get? k = some r') : t'.get? k = some r' := by
  rw [get?_of_insert h, if_neg, hr]
  rintro rfl
  rw [(rows_of_insert h).1] at hr
  cases hr

/-- Add a row, or rewrite the one under its key with `merge`. -/
def upsert (t : Table ρ κ key) (r : ρ) (merge : ρ → ρ) (hmerge : ∀ r', key (merge r') = key r') :
    Table ρ κ key :=
  match t.insert r with
  | some t' => t'
  | none => t.update (fun r' => key r' = key r) merge hmerge

theorem get?_upsert (t : Table ρ κ key) (r : ρ) (merge : ρ → ρ)
    (hmerge : ∀ r', key (merge r') = key r') (k : κ) : (t.upsert r merge hmerge).get? k =
      if k = key r then some ((t.get? k).elim r merge) else t.get? k := by
  unfold upsert
  cases h : t.insert r with
  | some =>
    simp only [get?_of_insert h]
    split_ifs with hk
    · rw [hk, (rows_of_insert h).1]
      rfl
    · rfl
  | none =>
    obtain ⟨_, hr₀⟩ := insert_eq_none_iff.mp h
    simp only [get?_update]
    split_ifs with hk
    · simp [hk, hr₀, key_of_get? hr₀]
    · cases hr' : t.get? k with
      | none => rfl
      | some => simp [key_of_get? hr', hk]

theorem count_key (t : Table ρ κ key) (k : κ) :
    (t.count fun r => key r = k) = (t.rows.map key).count k := by
  simp [count, List.count, List.countP_map, Function.comp_def, beq_eq_decide]

theorem count_key_le_one (t : Table ρ κ key) (k : κ) : (t.count fun r => key r = k) ≤ 1 := by
  rw [count_key]
  exact List.nodup_iff_count_le_one.mp t.nodup k

theorem count_key_of_get? (h : t.get? k = some r) : (t.count fun r => key r = k) = 1 := by
  obtain ⟨hmem, rfl⟩ := get?_eq_some_iff.mp h
  rw [count_key]
  exact List.count_eq_one_of_mem t.nodup (List.mem_map_of_mem hmem)

theorem countP_map_key {g : ρ → ρ} (hg : ∀ r, key r ≠ k → g r = r) (q : ρ → Bool) :
    ∀ rows : List ρ, (rows.map key).Nodup →
      (rows.map g).countP q + ((rows.find? fun r => key r = k).any q).toNat =
        rows.countP q + (((rows.find? fun r => key r = k).map g).any q).toNat
  | [], _ => rfl
  | r :: rows, hnodup => by
    obtain ⟨hr, hrows⟩ := List.nodup_cons.mp hnodup
    by_cases hk : key r = k
    · -- no other row has the key, so the others are as they were
      have hrest : rows.map g = rows := by
        refine (List.map_congr_left fun r' hr' => ?_).trans (List.map_id rows)
        exact hg r' fun hk' => hr (hk ▸ hk' ▸ List.mem_map_of_mem hr')
      simp only [List.map_cons, List.countP_cons, hrest, List.find?_cons, hk, decide_true,
        Option.any_some, Option.map_some]
      cases q r <;> cases q (g r) <;> simp
    · have ih := countP_map_key hg q rows hrows
      simp only [List.map_cons, List.countP_cons, hg r hk, List.find?_cons, hk, decide_false]
      omega

theorem count_update_key (t : Table ρ κ key) {f : ρ → ρ}
    (hf : ∀ r, key (f r) = key r) (hp : ∀ r, p r → key r = k) (q : ρ → Bool) :
    (t.update p f hf).count q + ((t.get? k).any q).toNat =
      t.count q + (((t.update p f hf).get? k).any q).toNat := by
  rw [get?_update]
  refine countP_map_key (fun r hr => ?_) q t.rows t.nodup
  rw [if_neg fun h => hr (hp r h)]

theorem mem_keysOf : k ∈ t.keysOf p ↔ ∃ r, t.get? k = some r ∧ p r := by
  simp only [keysOf, List.mem_map, List.mem_filter, get?_eq_some_iff]
  constructor
  · rintro ⟨r, ⟨hr, hp⟩, rfl⟩
    exact ⟨r, ⟨hr, rfl⟩, hp⟩
  · rintro ⟨r, ⟨hr, rfl⟩, hp⟩
    exact ⟨r, ⟨hr, hp⟩, rfl⟩

/-- If each counted row, with some exceptions, comes from a counted row under its key, then the count
grows by no more than the exceptions. -/
theorem count_le_add {p q : ρ → Bool} (ks : List κ)
    (h : ∀ k r', k ∉ ks → t'.get? k = some r' → q r' → ∃ r, t.get? k = some r ∧ p r) :
    t'.count q ≤ t.count p + ks.length := by
  rw [← length_keysOf, ← length_keysOf, ← List.length_append]
  refine (List.subperm_of_subset (t'.nodup_keysOf q) fun k hk => ?_).length_le
  by_cases hks : k ∈ ks
  · exact List.mem_append_right _ hks
  · obtain ⟨r', hr', hq⟩ := mem_keysOf.mp hk
    exact List.mem_append_left _ (mem_keysOf.mpr (h k r' hks hr' hq))

/-- Counts before and after a change, where a row that stays is counted if it was : they differ by
what was removed and what was added. -/
theorem count_balance {q : ρ → Bool}
    (h : ∀ k r r', t.get? k = some r → t'.get? k = some r' → q r' = q r) :
    t'.count q + t.count (fun r => q r && (t'.get? (key r)).isNone) =
      t.count q + t'.count fun r => q r && (t.get? (key r)).isNone := by
  have hsplit : ∀ t₁ t₂ : Table ρ κ key, t₁.count q =
      t₁.count (fun r => q r && (t₂.get? (key r)).isSome) +
        t₁.count fun r => q r && (t₂.get? (key r)).isNone := by
    intro t₁ t₂
    unfold count
    rw [List.countP_eq_countP_filter_add _ q fun r => (t₂.get? (key r)).isSome]
    simp [List.countP_filter]
  have hkept : t'.count (fun r => q r && (t.get? (key r)).isSome) =
      t.count fun r => q r && (t'.get? (key r)).isSome := by
    rw [← length_keysOf, ← length_keysOf]
    refine ((List.perm_ext_iff_of_nodup (nodup_keysOf _ _) (nodup_keysOf _ _)).mpr
      fun k => ?_).length_eq
    simp only [mem_keysOf, Bool.and_eq_true, Option.isSome_iff_exists]
    constructor
    · rintro ⟨r', hr', hq, r, hr⟩
      rw [key_of_get? hr'] at hr
      exact ⟨r, hr, h k r r' hr hr' ▸ hq, r', key_of_get? hr ▸ hr'⟩
    · rintro ⟨r, hr, hq, r', hr'⟩
      rw [key_of_get? hr] at hr'
      exact ⟨r', hr', h k r r' hr hr' ▸ hq, r, key_of_get? hr' ▸ hr⟩
  rw [hsplit t' t, hsplit t t', hkept]
  omega

end Key

end Table

/-! ## A unique column -/

/-- A table whose column `col` holds no value twice; `none` is NULL, which may repeat. -/
structure UniqueTable (ρ κ ι : Type) (key : ρ → κ) (col : ρ → Option ι) extends
    Table ρ κ key where
  unique : (rows.filterMap col).Nodup

namespace UniqueTable

variable {ρ κ ι : Type} {key : ρ → κ} {col : ρ → Option ι}

/-- No rows. -/
def empty : UniqueTable ρ κ ι key col := ⟨.empty, List.nodup_nil⟩

instance : Inhabited (UniqueTable ρ κ ι key col) := ⟨empty⟩

theorem filterMap_sublist {f : ρ → ρ} (hcol : ∀ r, col (f r) = none ∨ col (f r) = col r) :
    ∀ rows : List ρ, ((rows.map f).filterMap col).Sublist (rows.filterMap col)
  | [] => .slnil
  | r :: rows => by
    have ih := filterMap_sublist hcol rows
    simp only [List.map_cons, List.filterMap_cons]
    rcases hcol r with h | h
    · rw [h]
      cases col r with
      | none => exact ih
      | some v => exact ih.cons v
    · rw [h]
      cases col r with
      | none => exact ih
      | some v => exact ih.cons_cons v

/-- Rewrite the rows that satisfy `p` with `f`, which leaves the key alone and clears the
unique column. -/
def update (t : UniqueTable ρ κ ι key col) (p : ρ → Bool) (f : ρ → ρ)
    (hf : ∀ r, key (f r) = key r) (hcol : ∀ r, col (f r) = none) : UniqueTable ρ κ ι key col where
  toTable := t.toTable.update p f hf
  unique := t.unique.sublist (filterMap_sublist
    (fun r => by by_cases h : p r <;> simp [h, hcol]) t.rows)

/-- Remove the rows that satisfy `p`. -/
def delete (t : UniqueTable ρ κ ι key col) (p : ρ → Bool) : UniqueTable ρ κ ι key col where
  toTable := t.toTable.delete p
  unique := t.unique.sublist (List.filter_sublist.filterMap col)

theorem nodup_filterMap_iff {rows : List ρ} : (rows.filterMap col).Nodup ↔
    rows.Pairwise fun a b => ∀ v, col a = some v → col b ≠ some v := by
  rw [List.Nodup, List.pairwise_filterMap]
  constructor
  · exact fun h => h.imp fun hab v ha hb => hab v ha v hb rfl
  · rintro h
    refine h.imp fun hab v ha v' hb hv => ?_
    exact hab v ha (hv ▸ hb)

variable [DecidableEq ι]

theorem count_col_le_one (t : UniqueTable ρ κ ι key col) (v : ι) :
    (t.count fun r => col r = some v) ≤ 1 := by
  have hcount : (t.count fun r => col r = some v) = (t.rows.filterMap col).count v := by
    simp [Table.count, List.count_filterMap, beq_eq_decide]
  rw [hcount]
  exact List.nodup_iff_count_le_one.mp t.unique v

/-- The row's value of the unique column is taken. -/
def taken (t : UniqueTable ρ κ ι key col) (r : ρ) : Bool :=
  (col r).any fun v => v ∈ t.rows.filterMap col

variable [DecidableEq κ] {t t' : UniqueTable ρ κ ι key col} {merge : ρ → ρ} {r : ρ}

/-- Add a row, unless its key is taken, which is an error, or its value of the unique column
is, which is ignored. -/
def insertOrIgnore (t : UniqueTable ρ κ ι key col) (r : ρ) : Option (UniqueTable ρ κ ι key col) :=
  match h : t.toTable.insert r with
  | none => none
  | some t' =>
    if ht : t.taken r then some t
    else some ⟨t', by
      rw [(Table.rows_of_insert h).2, List.filterMap_append, List.nodup_append]
      refine ⟨t.unique, by cases hr : col r <;> simp [hr], ?_⟩
      rintro a ha b hb rfl
      refine ht ?_
      cases hr : col r <;> simp_all [taken]⟩

theorem insertOrIgnore_cases (h : t.insertOrIgnore r = some t') :
    t' = t ∨ t.toTable.insert r = some t'.toTable := by
  unfold insertOrIgnore at h
  split at h
  · cases h
  · rename_i table hinsert
    split_ifs at h
    · exact .inl (Option.some.inj h).symm
    · cases h
      exact .inr hinsert

/-- A row under another key holds the row's value of the unique column. -/
def conflicts (t : UniqueTable ρ κ ι key col) (r : ρ) : Bool :=
  t.rows.any fun r' => key r' ≠ key r && (col r').isSome && col r' = col r

theorem nodup_upsert {t : UniqueTable ρ κ ι key col}
    (hmerge : ∀ r', key (merge r') = key r') (hcol : ∀ r', col (merge r') = col r)
    (hfree : ¬ t.conflicts r) : (((t.toTable.upsert r merge hmerge).rows).filterMap col).Nodup := by
  have hother : ∀ r' ∈ t.rows, key r' ≠ key r → ∀ v, col r' = some v → col r ≠ some v := by
    intro r' hr' hkey v hv hrv
    refine hfree (List.any_eq_true.mpr ⟨r', hr', ?_⟩)
    simp [hkey, hv, hrv]
  unfold Table.upsert
  split
  · rename_i table hinsert
    obtain ⟨hnone, hrows⟩ := Table.rows_of_insert hinsert
    rw [hrows, nodup_filterMap_iff, List.pairwise_append]
    refine ⟨nodup_filterMap_iff.mp t.unique, List.pairwise_singleton _ _, ?_⟩
    rintro r' hr' _ hmem
    rw [List.mem_singleton.mp hmem]
    exact hother r' hr' (Table.get?_eq_none_iff.mp hnone r' hr')
  · -- of two rows at most one is rewritten, and the other holds another value
    rw [nodup_filterMap_iff, Table.update, List.pairwise_map]
    have hkeys : t.rows.Pairwise fun a b => key a ≠ key b := List.pairwise_map.mp t.nodup
    have hboth := (List.pairwise_and_iff.mpr ⟨nodup_filterMap_iff.mp t.unique, hkeys⟩)
    refine hboth.imp_of_mem ?_
    rintro a b ha hb ⟨hab, hne⟩ v
    by_cases hka : key a = key r
    · have hkb : key b ≠ key r := fun h => hne (hka.trans h.symm)
      simp only [hka, hkb, decide_true, decide_false, if_true, hcol]
      exact fun hr hv => hother b hb hkb v hv hr
    · by_cases hkb : key b = key r
      · simp only [hka, hkb, decide_true, decide_false, if_true, hcol]
        exact fun hv => hother a ha hka v hv
      · simpa [hka, hkb] using hab v

/-- Add a row, or rewrite the one under its key with `merge`, which gives it the row's value of
the unique column; refused if a row under another key holds that value. -/
def upsert (t : UniqueTable ρ κ ι key col) (r : ρ) (merge : ρ → ρ)
    (hmerge : ∀ r', key (merge r') = key r') (hcol : ∀ r', col (merge r') = col r) :
    Option (UniqueTable ρ κ ι key col) :=
  if h : t.conflicts r then none
  else some ⟨t.toTable.upsert r merge hmerge, nodup_upsert hmerge hcol h⟩

end UniqueTable
