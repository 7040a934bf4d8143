import Runkite.ItemSearch
import Runkite.Like

/-!
# Searching by namespace on SQLite

The namespace of a search becomes a `LIKE` pattern, and so does the namespace whose latest opaque
checkpoint is asked for. The pattern is built from the segments as they are, so a `%` or a `_` in them
is a wildcard, and a letter stands for both of its cases.

`prefixSearch_iff` says for which requests the answer is exact, whatever the store holds : those without
such characters. A list of namespaces must also be without a depth, which is not looked at, the store
without expired items, which are listed like the others, and prefix and suffix must not leave an empty
segment at an end, which is not read back.
-/

namespace Runkite

open Delimited Sqlite

/-! ## Patterns -/

/-- Segments without the delimiter. -/
def Segments (ns : List String) : Prop := ∀ s ∈ ns, Strings.Free nsDelim s

/-- Segments that a pattern takes literally. -/
def LiteralNs (ns : List String) : Prop := ∀ s ∈ ns, ∀ c ∈ s.toList, ¬Loose c

/-- The stored form of the namespace matches the pattern of the prefix. -/
def Begins (p ns : List String) : Prop :=
  p = [] ∨ likeNs (nsPrefixPattern p) (nsToString ns) = true

/-- The stored form of the namespace matches the pattern of the suffix. -/
def Ends (s ns : List String) : Prop :=
  s = [] ∨ likeNs (nsSuffixPattern s) (nsToString ns) = true

/-- The segments with the delimiter between them. -/
def joined (ns : List String) : List Char := [nsDelim].intercalate (ns.map String.toList)

variable {p s q x : List String}

theorem nsToString_toList (ns : List String) :
    (nsToString ns).toList = wrap nsDelim (ns.map String.toList) :=
  String.toList_ofList

theorem Segments.free (h : Segments p) : ∀ l ∈ p.map String.toList, nsDelim ∉ l := by
  intro l hl
  obtain ⟨s, hs, rfl⟩ := List.mem_map.1 hl
  exact h s hs

theorem Segments.append (hp : Segments p) (hs : Segments s) : Segments (p ++ s) :=
  List.forall_mem_append.2 ⟨hp, hs⟩

theorem segments_nil : Segments [] := fun _ h => absurd h List.not_mem_nil

theorem literalNs_iff : LiteralNs p ↔ ∀ c ∈ joined p, ¬Loose c := by
  constructor
  · intro h c hc
    rcases mem_intercalate_iff.1 hc with ⟨l, hl, hmem⟩ | ⟨rfl, -⟩
    · obtain ⟨s, hs, rfl⟩ := List.mem_map.1 hl
      exact h s hs c hmem
    · decide
  · intro h s hs c hc
    exact h c (mem_intercalate_iff.2 (.inl ⟨_, List.mem_map_of_mem hs, hc⟩))

theorem LiteralNs.wrap (h : LiteralNs p) : ∀ c ∈ wrap nsDelim (p.map String.toList), ¬Loose c := by
  have hdelim : ¬Loose nsDelim := by decide
  intro c hc
  rcases List.mem_cons.1 hc with rfl | hc
  · exact hdelim
  · rcases List.mem_append.1 hc with hc | hc
    · exact literalNs_iff.1 h c hc
    · exact List.mem_singleton.1 hc ▸ hdelim

/-- The stored form of the root is part of that of one empty segment, and of no other. -/
theorem root_iff (hp : p ≠ []) (h : Segments p) {P : Prop}
    (hle : P → (wrap nsDelim (p.map String.toList)).length ≤ 2)
    (hroot : p = [""] → P) : P ↔ p = [""] := by
  refine ⟨fun hP => ?_, hroot⟩
  have hlen := hle hP
  have hj : [nsDelim].intercalate (p.map String.toList) = [] :=
    List.length_eq_zero_iff.1 (by simpa [wrap] using hlen)
  have hsplit := List.splitOn_intercalate nsDelim h.free (by simpa using hp)
  rw [hj] at hsplit
  have hmap := congrArg (List.map String.ofList) hsplit
  rw [map_ofList_toList] at hmap
  simpa using hmap.symm

theorem begins_iff (hlit : LiteralNs p) (hps : Segments p) (hq : Segments q) :
    Begins p q ↔ p <+: q ∨ p = [""] ∧ q = [] := by
  by_cases hp : p = []
  · simp [Begins, hp]
  rw [Begins, or_iff_right hp, likeNs, nsPrefixPattern, if_neg hp, String.toList_append,
    nsToString_toList, nsToString_toList]
  refine (sqlLike_concat_percent hlit.wrap _).trans ?_
  by_cases hq₀ : q = []
  · refine (root_iff hp hps (fun h => h.length_le.trans (by simp [hq₀, wrap])) ?_).trans
      (by simp [hq₀, hp])
    rintro rfl
    rw [hq₀]
    exact List.prefix_refl _
  · rw [wrap_isPrefix_iff (by simpa using hp) (by simpa using hq₀) hps.free hq.free,
      List.prefix_map_iff_of_injective fun _ _ h => String.toList_injective h]
    simp [hq₀]

theorem ends_iff (hlit : LiteralNs s) (hss : Segments s) (hq : Segments q) :
    Ends s q ↔ s <:+ q ∨ s = [""] ∧ q = [] := by
  by_cases hs : s = []
  · simp [Ends, hs]
  rw [Ends, or_iff_right hs, likeNs, nsSuffixPattern, if_neg hs, String.toList_append,
    nsToString_toList, nsToString_toList]
  refine (sqlLike_percent_cons hlit.wrap _).trans ?_
  by_cases hq₀ : q = []
  · refine (root_iff hs hss (fun h => h.length_le.trans (by simp [hq₀, wrap])) ?_).trans
      (by simp [hq₀, hs])
    rintro rfl
    rw [hq₀]
    exact List.suffix_refl _
  · rw [wrap_isSuffix_iff (by simpa using hs) (by simpa using hq₀) hss.free hq.free,
      List.suffix_map_iff_of_injective fun _ _ h => String.toList_injective h]
    simp [hq₀]

/-- Segments that are not literal have a pattern that matches others too. -/
theorem exists_joined (h : ¬LiteralNs p) :
    p ≠ [] ∧ ∃ x, x ≠ [] ∧ Segments x ∧ Catches (joined p) (joined x) ∧ joined x ≠ joined p ∧
      (joined x).length = (joined p).length := by
  refine ⟨by rintro rfl; exact h fun _ hs => absurd hs List.not_mem_nil, ?_⟩
  obtain ⟨other, hother⟩ := exists_catches (literalNs_iff.not.1 h)
  -- Every text is the joined one of its pieces.
  have hj : joined ((other.splitOn nsDelim).map String.ofList) = other := by
    simp [joined, Function.comp_def]
  refine ⟨_, ?_, ?_, hj.symm ▸ hother⟩
  · simp [List.splitOn_ne_nil]
  · intro s hs
    obtain ⟨l, hl, rfl⟩ := List.mem_map.1 hs
    rw [Strings.Free, String.toList_ofList]
    exact not_mem_of_mem_splitOn hl

theorem begins_append (h : Catches (joined p) (joined x)) (hx : x ≠ []) (rest : List String) :
    Begins p (x ++ rest) := by
  refine or_iff_not_imp_left.2 fun hp => ?_
  obtain ⟨cs, hcs⟩ := @exists_wrap_append_right _ nsDelim (x.map String.toList)
    (by simpa using hx) (rest.map String.toList)
  rw [likeNs, nsPrefixPattern, if_neg hp, String.toList_append, nsToString_toList, nsToString_toList,
    List.map_append, hcs, wrap, List.cons_append, List.append_assoc]
  exact catches_self [nsDelim] (h (catches_self [nsDelim]
    ((sqlLike_percent [] cs).2 ⟨cs, [], by simp, rfl⟩)))

theorem append_ends (h : Catches (joined s) (joined x)) (hx : x ≠ []) (pre : List String) :
    Ends s (pre ++ x) := by
  refine or_iff_not_imp_left.2 fun hs => ?_
  obtain ⟨cs, hcs⟩ := @exists_wrap_append_left _ nsDelim (x.map String.toList)
    (by simpa using hx) (pre.map String.toList)
  rw [likeNs, nsSuffixPattern, if_neg hs, String.toList_append, nsToString_toList, nsToString_toList,
    List.map_append, hcs, wrap]
  exact (sqlLike_percent _ _).2 ⟨cs, _, rfl, catches_self [nsDelim] (h (catches_self [nsDelim] rfl))⟩

theorem begins_self (p rest : List String) : Begins p (p ++ rest) := by
  by_cases hp : p = []
  · exact .inl hp
  · exact begins_append (catches_self _) hp rest

theorem ends_self (s pre : List String) : Ends s (pre ++ s) := by
  by_cases hs : s = []
  · exact .inl hs
  · exact append_ends (catches_self _) hs pre

/-! ## Patterns that are exact -/

/-- The two patterns match the namespaces with this prefix and this suffix. -/
def PatternsExact (p s : List String) : Prop :=
  ∀ q, Segments q → (Begins p q ∧ Ends s q ↔ p <+: q ∧ s <:+ q)

/-- Prefix and suffix that match the stored form of the root without being those of the root. -/
def RootLike (p s : List String) : Prop :=
  (p = [] ∨ p = [""]) ∧ (s = [] ∨ s = [""]) ∧ ¬(p = [] ∧ s = [])

theorem patternsExact_iff (hp : Segments p) (hs : Segments s) :
    PatternsExact p s ↔ LiteralNs p ∧ LiteralNs s ∧ ¬RootLike p s := by
  constructor
  · intro hexact
    refine ⟨?_, ?_, ?_⟩
    · by_contra hloose
      obtain ⟨hp₀, x, hx₀, hx, hcatches, hne, hlen⟩ := exists_joined hloose
      obtain ⟨⟨rest, hrest⟩, -⟩ := (hexact (x ++ s) (hx.append hs)).1
        ⟨begins_append hcatches hx₀ s, ends_self s x⟩
      obtain ⟨cs, hcs⟩ := @exists_wrap_append_right _ nsDelim (p.map String.toList)
        (by simpa using hp₀) (rest.map String.toList)
      obtain ⟨ds, hds⟩ := @exists_wrap_append_right _ nsDelim (x.map String.toList)
        (by simpa using hx₀) (s.map String.toList)
      rw [← List.map_append, hrest, List.map_append, hds] at hcs
      exact hne (List.append_inj (List.cons.inj hcs).2 hlen).1
    · by_contra hloose
      obtain ⟨hs₀, x, hx₀, hx, hcatches, hne, hlen⟩ := exists_joined hloose
      obtain ⟨-, ⟨pre, hpre⟩⟩ := (hexact (p ++ x) (hp.append hx)).1
        ⟨begins_self p x, append_ends hcatches hx₀ p⟩
      obtain ⟨_, hcs⟩ := @exists_wrap_append_left _ nsDelim (s.map String.toList)
        (by simpa using hs₀) (pre.map String.toList)
      obtain ⟨_, hds⟩ := @exists_wrap_append_left _ nsDelim (x.map String.toList)
        (by simpa using hx₀) (p.map String.toList)
      rw [← List.map_append, hpre, List.map_append, hds] at hcs
      have htail := (List.append_inj' hcs (by simpa [joined] using hlen)).2
      exact hne (List.append_cancel_right (List.cons.inj htail).2)
    · rintro ⟨hroot, hroot', hnot⟩
      obtain ⟨hpre, hsuf⟩ := (hexact [] segments_nil).1
        ⟨hroot.imp id fun h => by rw [h]; decide, hroot'.imp id fun h => by rw [h]; decide⟩
      exact hnot ⟨List.prefix_nil.1 hpre, List.suffix_nil.1 hsuf⟩
  · rintro ⟨hlp, hls, hroot⟩ q hq
    rw [begins_iff hlp hp hq, ends_iff hls hs hq]
    by_cases hq₀ : q = []
    · simp only [hq₀, and_true, List.prefix_nil, List.suffix_nil]
      exact ⟨fun h => by_contra fun hn => hroot ⟨h.1, h.2, hn⟩, fun h => ⟨.inl h.1, .inl h.2⟩⟩
    · simp [hq₀, and_false, or_false]

/-! ## Exact answers -/

/-- The rows are filed under these namespaces. -/
structure Filed (nsOf : StoreRow → List String) (t : ItemTable) : Prop where
  stored : ∀ r ∈ t.rows, r.ns = nsToString (nsOf r)
  segments : ∀ r ∈ t.rows, Segments (nsOf r)

/-- A search by prefix selects the items of this tenant that have not expired and whose first segments
are the prefix. -/
def SearchExact (p : List String) : Prop :=
  ∀ filterHolds ctx now t nsOf limit offset refreshTTL, Filed nsOf t →
    (∀ document, filterHolds [] document = .ok true) →
    selected filterHolds ctx now ⟨p, [], limit, offset, refreshTTL⟩ t =
      .ok (t.rows.filter fun r => r.live now && ctx.sees r.tenantId && decide (p <+: nsOf r))

/-- The first segments of a namespace, where a depth is given. -/
def cut (maxDepth : Option ℤ) (ns : List String) : List String :=
  maxDepth.elim ns fun n => ns.take n.toNat

/-- A list of namespaces has those of the unexpired items whose first and last segments are the given
ones, on a page that has room for them; `expired` says whether the store may hold expired items. -/
def ListExact (p s : List String) (maxDepth : Option ℤ) (expired : Bool) : Prop :=
  ∀ ctx now t nsOf limit, Filed nsOf t → (expired = false → ∀ r ∈ t.rows, r.live now = true) →
    (t.rows.length : ℤ) ≤ limit → ∀ ns, ns ∈ listNamespaces ctx ⟨p, s, maxDepth, limit, 0⟩ t ↔
      ∃ r ∈ t.rows, r.live now = true ∧ ctx.sees r.tenantId = true ∧ (p <+: nsOf r ∧ s <:+ nsOf r) ∧
        ns = cut maxDepth (nsOf r)

/-- The prefix begins and the suffix ends with a segment that is not empty. -/
def Edged (p s : List String) : Prop :=
  (∃ a ∈ p.head?, a ≠ "") ∧ ∃ a ∈ s.getLast?, a ≠ ""

/-- The key of an opaque checkpoint is one of the namespace. -/
def keyOf (ns checkpointId : String) : Bool :=
  if ns = "" then nsSep ∉ checkpointId.toList else ns.toList ++ [nsSep] <+: checkpointId.toList

/-- The latest opaque checkpoint of a namespace is chosen among the keys of that namespace. -/
def LatestExact (ns : String) : Prop :=
  ∀ ctx threadId (t : OpaqueTable), t.getLatestOpaqueCheckpoint ctx threadId ns =
    OpaqueTable.greatest (t.rows.filter fun c =>
      c.threadId = threadId && keyOf ns c.checkpointId && ctx.sees c.tenantId)

/-- A table with one item. -/
def oneItem (ns : List String) (expiresAt : Option ℤ) : ItemTable :=
  ⟨[⟨"", nsToString ns, "k", .object [], 0, 0, expiresAt.map fun _ => 1, expiresAt⟩],
    List.nodup_singleton _⟩

theorem filed_oneItem (h : Segments q) (expiresAt : Option ℤ) :
    Filed (fun _ => q) (oneItem q expiresAt) :=
  ⟨fun r hr => by rw [List.mem_singleton.1 hr], fun _ _ => h⟩

theorem length_oneItem (q : List String) (expiresAt : Option ℤ) :
    ((oneItem q expiresAt).rows.length : ℤ) ≤ 1 := le_rfl

theorem rowHolds_eq {filterHolds : FilterHolds} (h : ∀ document, filterHolds [] document = .ok true)
    (r : StoreRow) (ctx : Ctx) (now limit offset : ℤ) (refreshTTL : Option Bool) :
    rowHolds likeNs filterHolds ctx now ⟨p, [], limit, offset, refreshTTL⟩ r =
      .ok (r.live now && ctx.sees r.tenantId && (p = [] || likeNs (nsPrefixPattern p) r.ns)) := by
  unfold rowHolds
  split_ifs with hrow
  · rw [hrow, h]
  · rw [Bool.eq_false_of_not_eq_true hrow]

theorem begins_eq (p q : List String) :
    (decide (p = []) || likeNs (nsPrefixPattern p) (nsToString q)) ↔ Begins p q := by simp [Begins]

theorem searchExact_iff (hp : Segments p) : SearchExact p ↔ LiteralNs p ∧ p ≠ [""] := by
  have hpatterns : PatternsExact p [] ↔ LiteralNs p ∧ p ≠ [""] := by
    rw [patternsExact_iff hp segments_nil]
    by_cases hp₀ : p = []
    · simp [RootLike, hp₀, LiteralNs]
    · simp [RootLike, hp₀, LiteralNs]
  rw [← hpatterns]
  constructor
  · intro hexact q hq
    have hsel := hexact (fun _ _ => .ok true) ⟨"", false⟩ 0 _ _ 0 0 none (filed_oneItem hq none)
      fun _ => rfl
    have hrow := eq_ok_of_selectWhere hsel
    rw [rowHolds_eq fun _ => rfl, Except.ok.injEq] at hrow
    have hsame : (decide (p = []) || likeNs (nsPrefixPattern p) (nsToString q)) = decide (p <+: q) := by
      simpa [StoreRow.live, Ctx.sees] using hrow
    rw [← begins_eq, hsame]
    simp [Ends]
  · intro hexact filterHolds ctx now t nsOf limit offset refreshTTL hfiled hfilter
    refine selectWhere_eq fun r hr => ?_
    have hiff := hexact (nsOf r) (hfiled.segments r hr)
    simp only [Ends, true_or, and_true, List.nil_suffix, ← begins_eq] at hiff
    rw [rowHolds_eq hfilter, hfiled.stored r hr, Bool.eq_iff_iff.2 (hiff.trans decide_eq_true_iff.symm)]

theorem mem_listNamespaces {ctx : Ctx} {maxDepth : Option ℤ} {limit : ℤ} {t : ItemTable}
    {nsOf : StoreRow → List String} (h : Filed nsOf t) (hlimit : (t.rows.length : ℤ) ≤ limit)
    {ns : List String} :
    ns ∈ listNamespaces ctx ⟨p, s, maxDepth, limit, 0⟩ t ↔ ∃ r ∈ t.rows, ctx.sees r.tenantId ∧
      (Begins p (nsOf r) ∧ Ends s (nsOf r)) ∧ ns = stringToNs (nsToString (nsOf r)) := by
  have hlen : (listed ctx ⟨p, s, maxDepth, limit, 0⟩ t).length ≤
      (if limit ≤ 0 then 100 else limit).toNat := by
    have hle : (listed ctx ⟨p, s, maxDepth, limit, 0⟩ t).length ≤ t.rows.length :=
      (List.dedup_sublist _).length_le.trans (by simpa using List.length_filter_le _ _)
    split_ifs <;> omega
  simp only [listNamespaces, Int.toNat_zero, List.drop_zero, List.mem_map]
  rw [List.take_of_length_le (by simpa using hlen)]
  simp only [List.mem_insertionSort, listed, List.mem_dedup, List.mem_map, List.mem_filter,
    Bool.and_eq_true, Bool.or_eq_true, decide_eq_true_eq, and_assoc]
  constructor
  · rintro ⟨_, ⟨r, hr, hsees, hbegins, hends, rfl⟩, rfl⟩
    rw [h.stored r hr] at hbegins hends ⊢
    exact ⟨r, hr, hsees, hbegins, hends, rfl⟩
  · rintro ⟨r, hr, hsees, hbegins, hends, rfl⟩
    exact ⟨_, ⟨r, hr, hsees, h.stored r hr ▸ hbegins, h.stored r hr ▸ hends, h.stored r hr⟩, rfl⟩

theorem stringToNs_eq_iff : stringToNs (nsToString q) = q ↔ Whole q := unwrapNs_wrapNs_iff q

/-- A namespace of many segments is not read back as its first ones. -/
theorem stringToNs_ne_take (p s : List String) (n : ℕ) :
    stringToNs (nsToString (p ++ List.replicate (n + 1) "1" ++ s)) ≠
      (p ++ List.replicate (n + 1) "1" ++ s).take n := by
  intro h
  -- the ones of the namespace are all read back, and some of them are after the cut
  have hones := count_unwrap (show '1' ≠ nsDelim by decide)
    (nsToString (p ++ List.replicate (n + 1) "1" ++ s)).toList
  rw [nsToString_toList, count_wrap (by decide)] at hones
  have hread := congrArg (List.map String.toList) h
  rw [stringToNs, unwrapNs, nsToString_toList, List.map_map] at hread
  simp only [Function.comp_def, String.toList_ofList, List.map_id'] at hread
  rw [hread] at hones
  generalize hq : p ++ List.replicate (n + 1) "1" ++ s = q at hones
  have hone : "1" ∈ q.drop n := by
    refine List.mem_of_getElem? (i := p.length) ?_
    rw [List.getElem?_drop, ← hq, List.append_assoc, List.getElem?_append_right (by omega),
      List.getElem?_append_left (by simp), List.getElem?_replicate, if_pos (by omega)]
  have hsplit : (q.map String.toList).flatten =
      ((q.take n).map String.toList).flatten ++ ((q.drop n).map String.toList).flatten := by
    rw [← List.flatten_append, ← List.map_append, List.take_append_drop]
  have hpos : 0 < ((q.drop n).map String.toList).flatten.count '1' :=
    List.count_pos_iff.2 (List.mem_flatten.2 ⟨_, List.mem_map_of_mem hone, by decide⟩)
  rw [hsplit, List.count_append] at hones
  omega

/-- Everything between the prefix and the suffix is read back. -/
theorem edged_iff (hp : Segments p) (hs : Segments s) :
    Edged p s ↔ ∀ q, Segments q → p <+: q → s <:+ q → Whole q := by
  constructor
  · rintro ⟨⟨a, ha, ha₀⟩, ⟨b, hb, hb₀⟩⟩ q hq ⟨rest, hrest⟩ ⟨front, hfront⟩
    refine ⟨hq, ?_, ?_⟩
    · rw [← hrest, List.head?_append, ha]
      simpa using ha₀
    · rw [← hfront, List.getLast?_append, hb]
      simpa using hb₀
  · intro hwhole
    have hblank : Segments [""] := by simp [Segments, Strings.Free]
    constructor
    · cases p with
      | nil =>
        exact absurd rfl (hwhole _ (hblank.append hs) List.nil_prefix (List.suffix_append _ _)).head
      | cons a p =>
        refine ⟨a, rfl, fun ha => ?_⟩
        exact (hwhole _ (hp.append hs) (List.prefix_append _ _) (List.suffix_append _ _)).head
          (by simp [ha])
    · rcases s.eq_nil_or_concat with rfl | ⟨s, a, rfl⟩
      · exact absurd (by simp) (hwhole _ (hp.append hblank) (List.prefix_append _ _)
          List.nil_suffix).last
      · refine ⟨a, by simp, fun ha => ?_⟩
        exact (hwhole _ (hp.append hs) (List.prefix_append _ _) (List.suffix_append _ _)).last
          (by simp [ha])

theorem listExact_iff (hp : Segments p) (hs : Segments s) (maxDepth : Option ℤ) (expired : Bool) :
    ListExact p s maxDepth expired ↔
      expired = false ∧ maxDepth = none ∧ LiteralNs p ∧ LiteralNs s ∧ Edged p s := by
  constructor
  · intro hexact
    have hone : ∀ q, Segments q → ∀ ns, (Begins p q ∧ Ends s q) ∧ ns = stringToNs (nsToString q) ↔
        (p <+: q ∧ s <:+ q) ∧ ns = cut maxDepth q := by
      intro q hq ns
      have hlisted := hexact ⟨"", false⟩ 0 _ _ 1 (filed_oneItem hq none) (fun _ r hr => by
        rw [List.mem_singleton.1 hr]; rfl) (length_oneItem q none) ns
      rw [mem_listNamespaces (filed_oneItem hq none) (length_oneItem q none)] at hlisted
      simpa [oneItem, StoreRow.live, Ctx.sees] using hlisted
    have hread : ∀ q, Segments q → p <+: q → s <:+ q → stringToNs (nsToString q) = cut maxDepth q :=
      fun q hq hpre hsuf => ((hone q hq _).2 ⟨⟨hpre, hsuf⟩, rfl⟩).2.symm
    have hexpired : expired = false := by
      by_contra htrue
      have hseg := hp.append hs
      have hlisted := hexact ⟨"", false⟩ 0 _ _ 1 (filed_oneItem hseg (some (-1)))
        (fun h => absurd h htrue) (length_oneItem _ _) (stringToNs (nsToString (p ++ s)))
      rw [mem_listNamespaces (filed_oneItem hseg _) (length_oneItem _ _)] at hlisted
      simp [oneItem, StoreRow.live, Ctx.sees, begins_self, ends_self] at hlisted
    have hdepth : maxDepth = none := by
      cases maxDepth with
      | none => rfl
      | some n =>
        have hones : Segments (List.replicate (n.toNat + 1) "1") := fun v hv => by
          rw [List.eq_of_mem_replicate hv]
          decide
        exact absurd (hread _ ((hp.append hones).append hs)
          ((List.prefix_append _ _).trans (List.prefix_append _ _)) (List.suffix_append _ _))
          (stringToNs_ne_take p s n.toNat)
    subst hdepth
    have hwhole : ∀ q, Segments q → p <+: q → s <:+ q → Whole q := fun q hq hpre hsuf =>
      stringToNs_eq_iff.1 (hread q hq hpre hsuf)
    have hexact' : PatternsExact p s := fun q hq =>
      ⟨fun h => ((hone q hq _).1 ⟨h, rfl⟩).1, fun h => ((hone q hq _).2 ⟨h, rfl⟩).1⟩
    obtain ⟨hlp, hls, -⟩ := (patternsExact_iff hp hs).1 hexact'
    exact ⟨hexpired, rfl, hlp, hls, (edged_iff hp hs).2 hwhole⟩
  · rintro ⟨rfl, rfl, hlp, hls, hedged⟩ ctx now t nsOf limit hfiled hlive hlimit ns
    have hroot : ¬ RootLike p s := by
      obtain ⟨⟨a, ha, ha₀⟩, -⟩ := hedged
      rintro ⟨rfl | rfl, -⟩
      · cases ha
      · cases ha
        exact ha₀ rfl
    have hexact := (patternsExact_iff hp hs).2 ⟨hlp, hls, hroot⟩
    rw [mem_listNamespaces hfiled hlimit]
    refine exists_congr fun r => and_congr_right fun hr => ?_
    have hseg := hfiled.segments r hr
    rw [hexact _ hseg, hlive rfl r hr, eq_self, true_and]
    refine and_congr_right fun _ => and_congr_right fun hends => ?_
    rw [stringToNs_eq_iff.2 ((edged_iff hp hs).1 hedged _ hseg hends.1 hends.2)]
    rfl

theorem latestExact_iff (ns : String) : LatestExact ns ↔ ∀ c ∈ ns.toList, ¬Loose c := by
  constructor
  · intro hexact
    by_contra hloose
    obtain ⟨other, hcatches, hne, hlen⟩ := exists_catches hloose
    have hne₀ : ns ≠ "" := by rintro rfl; simp at hloose
    have hin : inNamespace ns (String.ofList (other ++ [nsSep])) := by
      rw [inNamespace, if_neg hne₀, String.toList_ofList]
      exact hcatches (by decide)
    have hout : keyOf ns (String.ofList (other ++ [nsSep])) = false := by
      rw [keyOf, if_neg hne₀, String.toList_ofList, decide_eq_false_iff_not]
      intro hpre
      exact hne (List.append_cancel_right (hpre.eq_of_length (by simp [hlen]))).symm
    -- One checkpoint, under a key of another namespace.
    have hkey := hexact ⟨"", false⟩ ""
      ⟨[⟨"", "", String.ofList (other ++ [nsSep]), "", [], 1, ""⟩], List.nodup_singleton _⟩
    rw [OpaqueTable.getLatestOpaqueCheckpoint, List.filter_singleton, List.filter_singleton, hin, hout]
      at hkey
    cases hkey
  · intro hlit ctx threadId t
    have hsame : ∀ id, inNamespace ns id = keyOf ns id := by
      intro id
      unfold inNamespace keyOf
      split_ifs with hne
      · rfl
      · have hliteral : ∀ c ∈ ns.toList ++ [nsSep], ¬Loose c := by
          intro c hc
          rcases List.mem_append.1 hc with hc | hc
          · exact hlit c hc
          · rw [List.mem_singleton.1 hc]
            decide
        have hlike := sqlLike_concat_percent hliteral id.toList
        rw [List.append_assoc] at hlike
        exact Bool.eq_iff_iff.2 (hlike.trans decide_eq_true_iff.symm)
    simp [OpaqueTable.getLatestOpaqueCheckpoint, hsame]

/-- The requests for which a search, a list of namespaces and the latest opaque checkpoint are exact,
whatever is stored. -/
theorem prefixSearch_iff {searched : List String} {ns : String} {maxDepth : Option ℤ} {expired : Bool}
    (hsearched : Segments searched) (hp : Segments p) (hs : Segments s) :
    SearchExact searched ∧ ListExact p s maxDepth expired ∧ LatestExact ns ↔
      (LiteralNs searched ∧ searched ≠ [""]) ∧
      (expired = false ∧ maxDepth = none ∧ LiteralNs p ∧ LiteralNs s ∧ Edged p s) ∧
      ∀ c ∈ ns.toList, ¬Loose c := by
  rw [searchExact_iff hsearched, listExact_iff hp hs, latestExact_iff]

theorem prefixSearch_digits :
    SearchExact ["42"] ∧ ListExact ["42"] ["7"] none false ∧ LatestExact "42" := by
  have hseg : Segments ["42"] ∧ Segments ["7"] := by simp [Segments, Strings.Free, nsDelim]
  have hlit : LiteralNs ["42"] ∧ LiteralNs ["7"] := by simp [LiteralNs, Loose, Char.isAlpha]
  exact (prefixSearch_iff hseg.1 hseg.1 hseg.2).2
    ⟨⟨hlit.1, by decide⟩, ⟨rfl, rfl, hlit.1, hlit.2, by simp [Edged]⟩, hlit.1 "42" List.mem_cons_self⟩

/-- A search for `team_a` selects an item of `teamXa`, and a list of the namespaces under `Team` with
one segment has one under `team` with two, whose item has expired. The latest checkpoint under `a`
is one under `A`. -/
theorem team_misread :
    selected (fun _ _ => .ok true) ⟨"", false⟩ 0 ⟨["team_a"], [], 10, 0, none⟩ (oneItem ["teamXa"] none) =
      .ok (oneItem ["teamXa"] none).rows ∧
    listNamespaces ⟨"", false⟩ ⟨["Team"], [], some 1, 10, 0⟩ (oneItem ["team", "a"] (some (-1))) =
      [["team", "a"]] ∧
    OpaqueTable.getLatestOpaqueCheckpoint ⟨"", false⟩ "" "a"
      ⟨[⟨"", "", String.ofList ['A', nsSep, '1'], "", [], 1, ""⟩], List.nodup_singleton _⟩ ≠ none := by
  refine ⟨?_, ?_, ?_⟩
  · rfl
  · decide
  · decide

end Runkite
