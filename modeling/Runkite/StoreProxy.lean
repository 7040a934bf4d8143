import Runkite.StoreItems

/-!
# The runner's store in proxy mode

A runner that has no database of its own reads and writes the store through the control plane. A put
sends the namespace as a JSON list. A get sends it as a query parameter : the runner joins the segments
with commas, and the control plane cuts the parameter at the commas, or at the dots if it has no comma.
The client library forbids dots and empty segments, but not commas.

`proxy_iff` says for which namespaces a get after a put returns the value that was put.
-/

open Json

namespace Runkite

/-! ## Handlers of the control plane -/

/-- The status that an error of the store is answered with. -/
def StoreError.status : StoreError → ℕ
  | .notFound _ _ => 404
  | .conflict _ _ _ => 409
  | .admissionLimitExceeded _ _ _ _ => 429
  | _ => 500

/-- The segments of the `namespace` parameter. -/
def parseNamespaceParam (s : String) : List String :=
  if Strings.contains s "," then Strings.split ',' s else Strings.split '.' s

/-- The body of `PUT /store/items`; its value is kept as it was sent. -/
structure StorePutRequest where
  ns : Option (List String)
  key : String
  value : Option Document
  ttlMinutes : Option ℚ

/-- The status of the answer, and the table after it. -/
def handlePutItem (ctx : Ctx) (now : ℤ) (req : StorePutRequest) (t : ItemTable) : ℕ × ItemTable :=
  match req.value.elim (some none) unmarshalValue with
  | none => (400, t)
  | some value =>
    if req.key = "" then (400, t)
    else
      let item : StoreItem := ⟨req.ns.getD [], req.key, value, 0, 0, req.ttlMinutes⟩
      (204, t.putItem ctx now item)

/-- The answer of `GET /store/items` : an item or the status of an error. -/
def handleGetItem (ctx : Ctx) (now : ℤ) (nsParam key refreshTTL : String) (t : ItemTable) :
    Except ℕ StoreItem × ItemTable :=
  if key = "" then (.error 400, t)
  else
    let ns := if nsParam = "" then [] else parseNamespaceParam nsParam
    match t.getItem ctx now ns key (refreshTTL ≠ "false") with
    | .error e => (.error e.status, t)
    | .ok (item, t') => (.ok item, t')

def handleDeleteItem (ctx : Ctx) (ns : List String) (key : String) (t : ItemTable) :
    ℕ × ItemTable :=
  if key = "" then (400, t)
  else
    match t.deleteItem ctx ns key with
    | .error e => (e.status, t)
    | .ok t' => (204, t')

/-! ## The runner -/

namespace Runner

/-- A value of the store : a `dict`, as the document that it is sent as. The order of its keys does not
matter, so they stand in order. -/
structure Dict where
  members : Members NumberToken
  canonical : (Value.object members).Canonical

/-- A put of no value deletes. -/
inductive Op where
  | get (ns : List String) (key : String) (refreshTtl : Bool)
  | put (ns : List String) (key : String) (value : Option Dict) (ttl : Option ℚ)

structure Item where
  ns : List String
  key : String
  value : Document
  createdAt : ℤ
  updatedAt : ℤ

/-- An answer's value; where it has none, or the value is `null`, the item gets an empty one. -/
def itemFromJson (item : StoreItem) : Item where
  ns := item.ns
  key := item.key
  value := item.value.elim (.object []) fun ms => marshalValue (some ms)
  createdAt := item.createdAt
  updatedAt := item.updatedAt

/-- `",".join(op.namespace)`. -/
def joinComma (ns : List String) : String :=
  String.ofList ([','].intercalate (ns.map String.toList))

/-- `resp.raise_for_status()`. -/
def raiseForStatus (status : ℕ) : Except ℕ (Option Item) :=
  if 200 ≤ status ∧ status < 300 then .ok none else .error status

/-- `_proxy_one` with the handlers that it calls : the result of an operation or the status that it
raises, and the table after it. -/
def proxyOne (tenant : String) (now : ℤ) (t : ItemTable) : Op → Except ℕ (Option Item) × ItemTable
  | .get ns key refreshTtl =>
    let refresh := if refreshTtl then "true" else "false"
    match handleGetItem ⟨tenant, false⟩ now (joinComma ns) key refresh t with
    | (.error status, t') => (if status = 404 then .ok none else .error status, t')
    | (.ok item, t') => (.ok (some (itemFromJson item)), t')
  | .put ns key none _ =>
    let (status, t') := handleDeleteItem ⟨tenant, false⟩ ns key t
    (raiseForStatus status, t')
  | .put ns key (some value) ttl =>
    let (status, t') := handlePutItem ⟨tenant, false⟩ now
      ⟨some ns, key, some (.object value.members), ttl⟩ t
    (raiseForStatus status, t')

/-! ## What a get reads -/

/-- The namespace that a get asks for, as it is stored. -/
def cell (ns : List String) : String := Runkite.nsToString (parseNamespaceParam (joinComma ns))

/-- The namespaces that the client library lets through : one or more segments, none empty or with a
dot. -/
structure Label (ns : List String) : Prop where
  nonempty : ns ≠ []
  segments : ∀ s ∈ ns, s ≠ "" ∧ Strings.Free '.' s

/-- The result of a get whose row is the one given. -/
def answer (now : ℤ) (row : Option StoreRow) : Except ℕ (Option Item) :=
  match row.filter (StoreRow.live now) with
  | none => .ok none
  | some r =>
    match unmarshalValue r.value with
    | none => .error 500
    | some value => .ok (some (itemFromJson (r.item value)))

section

variable {tenant key key' : String} {ns ns' : List String} {now : ℤ} {t : ItemTable}

theorem joinComma_ne_empty (h : Label ns) : joinComma ns ≠ "" := by
  obtain ⟨s, hs⟩ := List.exists_mem_of_ne_nil ns h.nonempty
  obtain ⟨c, hc⟩ := List.exists_mem_of_ne_nil s.toList
    fun hn => (h.segments s hs).1 (String.toList_eq_nil_iff.1 hn)
  have hmem : c ∈ (joinComma ns).toList := by
    rw [joinComma, String.toList_ofList, Delimited.mem_intercalate_iff]
    exact .inl ⟨s.toList, List.mem_map_of_mem hs, hc⟩
  intro he
  simp [he] at hmem

theorem proxyOne_get (h : Label ns) (hkey : key ≠ "") (refreshTtl : Bool) :
    (proxyOne tenant now t (.get ns key refreshTtl)).1 =
      answer now (Table.get? t (tenant, cell ns, key)) := by
  have hget := fun refresh => @ItemTable.getItem_eq ⟨tenant, false⟩ rfl now
    (parseNamespaceParam (joinComma ns)) key refresh t
  simp only [proxyOne, handleGetItem, if_neg hkey, if_neg (joinComma_ne_empty h), hget, answer, cell]
  cases (Table.get? t (tenant, Runkite.nsToString (parseNamespaceParam (joinComma ns)), key)).filter
      (StoreRow.live now) with
  | none => rfl
  | some r =>
    cases hv : unmarshalValue r.value with
    | none => simp [hv, StoreError.status]
    | some => simp [hv]

theorem contains_comma_iff (s : String) : Strings.contains s "," ↔ ',' ∈ s.toList := by
  rw [Strings.contains, decide_eq_true_iff]
  exact List.singleton_infix_iff ',' s.toList

theorem comma_mem_joinComma_iff :
    ',' ∈ (joinComma ns).toList ↔ (∃ s ∈ ns, ',' ∈ s.toList) ∨ 2 ≤ ns.length := by
  rw [joinComma, String.toList_ofList, Delimited.mem_intercalate_iff]
  simp

/-- Without commas in the segments a get asks for the namespace that it is given. -/
theorem parse_joinComma (h : Label ns) (hfree : ∀ s ∈ ns, Strings.Free ',' s) :
    parseNamespaceParam (joinComma ns) = ns := by
  by_cases hlen : 2 ≤ ns.length
  · have hcontains : Strings.contains (joinComma ns) "," :=
      (contains_comma_iff _).2 (comma_mem_joinComma_iff.2 (.inr hlen))
    rw [parseNamespaceParam, if_pos hcontains, Strings.split, joinComma, String.toList_ofList,
      List.splitOn_intercalate ',' _ (by simpa using h.nonempty), map_ofList_toList]
    intro l hl
    obtain ⟨s, hs, rfl⟩ := List.mem_map.1 hl
    exact hfree s hs
  · -- One segment : the parameter is the segment, and it has no dot to be cut at.
    have hpos := List.length_pos_iff.2 h.nonempty
    obtain ⟨s, rfl⟩ := List.length_eq_one_iff.1 (show ns.length = 1 by omega)
    have hcontains : ¬Strings.contains (joinComma [s]) "," := by
      rw [contains_comma_iff, comma_mem_joinComma_iff]
      simpa [Strings.Free] using hfree s List.mem_cons_self
    have hsplit : [s.toList] = s.toList.splitOn '.' := by
      have hdot : ∀ l ∈ [s.toList], '.' ∉ l := by
        simpa [Strings.Free] using (h.segments s List.mem_cons_self).2
      simpa using (List.splitOn_intercalate '.' hdot (by simp)).symm
    rw [parseNamespaceParam, if_neg hcontains, Strings.split, joinComma, String.toList_ofList,
      List.map_singleton, List.intercalate_singleton, ← hsplit]
    simp

theorem cell_ne_of_comma {s : String} (hs : s ∈ ns) (hcomma : ¬Strings.Free ',' s) :
    cell ns ≠ Runkite.nsToString ns := by
  have hmem : ',' ∈ s.toList := not_not.1 hcomma
  have hstored : ',' ∈ (Runkite.nsToString ns).toList := by
    rw [Runkite.nsToString, wrapNs, String.toList_ofList, Delimited.mem_wrap_iff]
    exact .inr ⟨s.toList, List.mem_map_of_mem hs, hmem⟩
  have hcontains : Strings.contains (joinComma ns) "," :=
    (contains_comma_iff _).2 (comma_mem_joinComma_iff.2 (.inl ⟨s, hs, hmem⟩))
  intro heq
  rw [← heq, cell, parseNamespaceParam, if_pos hcontains, Runkite.nsToString, wrapNs,
    String.toList_ofList, Delimited.mem_wrap_iff, Strings.split] at hstored
  rcases hstored with hd | ⟨l, hl, hc⟩
  · exact absurd hd (by decide)
  · obtain ⟨p, hp, rfl⟩ := List.mem_map.1 hl
    obtain ⟨_, hcs, rfl⟩ := List.mem_map.1 hp
    rw [String.toList_ofList] at hc
    exact Delimited.not_mem_of_mem_splitOn hcs hc

theorem cell_eq_iff (h : Label ns) :
    cell ns = Runkite.nsToString ns ↔ ∀ s ∈ ns, Strings.Free ',' s := by
  constructor
  · intro heq s hs
    by_contra hcomma
    exact cell_ne_of_comma hs hcomma heq
  · intro hfree
    rw [cell, parse_joinComma h hfree]

/-! ## What a put leaves -/

/-- A put touches one row. -/
theorem get?_proxyOne_put (value : Option Dict) (ttl : Option ℚ) {k : String × String × String}
    (hk : k ≠ (tenant, Runkite.nsToString ns, key)) :
    Table.get? (proxyOne tenant now t (.put ns key value ttl)).2 k = Table.get? t k := by
  cases value with
  | none =>
    simp only [proxyOne, handleDeleteItem, ItemTable.deleteItem]
    split_ifs with hkey hany
    · rfl
    · rw [Table.get?_delete]
      cases hr : Table.get? t k with
      | none => rfl
      | some r =>
        have hprimary : r.primary = k := Table.key_of_get? hr
        rw [Option.filter_some, if_pos]
        by_contra hp
        apply hk
        rw [← hprimary]
        simpa [StoreRow.primary, Ctx.sees, and_comm, and_assoc] using hp
    · rfl
  | some =>
    simp only [proxyOne, handlePutItem]
    split
    · rfl
    · split_ifs with hkey
      · rfl
      · rw [ItemTable.get?_putItem]
        exact if_neg hk

theorem proxyOne_put (hkey : key ≠ "") (value : Dict) (ttl : Option ℚ) :
    ∃ ms, unmarshalValue (.object value.members) = some (some ms) ∧
      marshalValue (some ms) = .object value.members ∧
      proxyOne tenant now t (.put ns key (some value) ttl) =
        (.ok none, t.putItem ⟨tenant, false⟩ now ⟨ns, key, some ms, 0, 0, ttl⟩) := by
  obtain ⟨ms, hread, hwrite⟩ := marshalValue_unmarshalValue value.canonical
  refine ⟨ms, hread, hwrite, ?_⟩
  simp [proxyOne, handlePutItem, hread, hkey, raiseForStatus]

theorem answer_put {ms : Members NumberToken} {value : Dict} {ttl : Option ℚ} {now' : ℤ}
    (hread : unmarshalValue (.object value.members) = some (some ms))
    (hwrite : marshalValue (some ms) = .object value.members)
    (hlive : (storeItemExpiresAt now ttl).all fun e => now' < e) :
    ∃ item, answer now' (Table.get? (t.putItem ⟨tenant, false⟩ now ⟨ns, key, some ms, 0, 0, ttl⟩)
      (tenant, Runkite.nsToString ns, key)) = .ok (some item) ∧ item.value = .object value.members := by
  rw [ItemTable.get?_putItem, if_pos rfl]
  -- The row is new or rewritten; its document and its expiry are those of the put either way.
  generalize hr : (Table.get? t (tenant, Runkite.nsToString ns, key)).elim _ _ = r
  have hvalue : r.value = .object value.members := by
    rw [← hr, ← hwrite]
    cases Table.get? t (tenant, Runkite.nsToString ns, key) <;> rfl
  have hexpires : r.expiresAt = storeItemExpiresAt now ttl := by
    rw [← hr]
    cases Table.get? t (tenant, Runkite.nsToString ns, key) <;> rfl
  have hr' : (some r).filter (StoreRow.live now') = some r := by
    rw [Option.filter_some, if_pos]
    rwa [StoreRow.live, hexpires]
  refine ⟨itemFromJson (r.item (some ms)), ?_, ?_⟩
  · simp [answer, hr', hvalue, hread]
  · simp [itemFromJson, StoreRow.item, hwrite]

end

/-! ## Reading one's own writes, and no others -/

/-- A get after a put of the same namespace and key returns the value that was put, as long as the
item lives. -/
def ReadsBack (ns : List String) (key : String) : Prop :=
  ∀ (tenant : String) (t : ItemTable) (value : Dict) (ttl : Option ℚ) (now now' : ℤ)
    (refreshTtl : Bool), (storeItemExpiresAt now ttl).all (fun e => now' < e) →
    (proxyOne tenant now t (.put ns key (some value) ttl)).1 = .ok none ∧
      ∃ item, (proxyOne tenant now' (proxyOne tenant now t (.put ns key (some value) ttl)).2
        (.get ns key refreshTtl)).1 = .ok (some item) ∧ item.value = .object value.members

/-- A get of one namespace returns what it did before, whatever is put under the other. -/
def Unseen (ns ns' : List String) (key : String) : Prop :=
  ∀ (tenant : String) (t : ItemTable) (key' : String) (value : Option Dict) (ttl : Option ℚ)
    (now now' : ℤ) (refreshTtl : Bool),
    (proxyOne tenant now' (proxyOne tenant now t (.put ns' key' value ttl)).2
      (.get ns key refreshTtl)).1 = (proxyOne tenant now' t (.get ns key refreshTtl)).1

/-- The empty `dict`. -/
def Dict.empty : Dict := ⟨[], List.Pairwise.nil, trivial⟩

variable {key : String} {ns ns' : List String}

theorem readsBack_iff (h : Label ns) :
    ReadsBack ns key ↔ key ≠ "" ∧ cell ns = Runkite.nsToString ns := by
  constructor
  · intro hback
    obtain ⟨hput, _, hget, -⟩ := hback "" Table.empty Dict.empty none 0 0 false rfl
    have hkey : key ≠ "" := by
      rintro rfl
      cases hput
    refine ⟨hkey, ?_⟩
    by_contra hne
    have hk : (("", cell ns, key) : String × String × String) ≠ ("", Runkite.nsToString ns, key) := by
      simpa using hne
    rw [proxyOne_get h hkey, get?_proxyOne_put (some Dict.empty) none hk, Table.get?_empty] at hget
    cases hget
  · rintro ⟨hkey, hcell⟩ tenant t value ttl now now' refreshTtl hlive
    obtain ⟨_, hread, hwrite, hput⟩ := @proxyOne_put tenant key ns now t hkey value ttl
    rw [hput, proxyOne_get h hkey, hcell]
    exact ⟨rfl, answer_put hread hwrite hlive⟩

theorem unseen_iff (h : Label ns) (hkey : key ≠ "") :
    Unseen ns ns' key ↔ cell ns ≠ Runkite.nsToString ns' := by
  constructor
  · intro hunseen hcell
    have hget := hunseen "" Table.empty key (some Dict.empty) none 0 0 false
    obtain ⟨ms, hread, hwrite, hput⟩ := @proxyOne_put "" key ns' 0 Table.empty hkey Dict.empty none
    obtain ⟨_, hitem, -⟩ := @answer_put "" key ns' 0 Table.empty ms Dict.empty none 0 hread hwrite rfl
    rw [proxyOne_get h hkey, proxyOne_get h hkey, hput, hcell, hitem, Table.get?_empty] at hget
    cases hget
  · intro hne tenant t key' value ttl now now' refreshTtl
    have hk : (tenant, cell ns, key) ≠ (tenant, Runkite.nsToString ns', key') := by
      intro heq
      exact hne (Prod.mk.inj (Prod.mk.inj heq).2).1
    rw [proxyOne_get h hkey, proxyOne_get h hkey, get?_proxyOne_put value ttl hk]

/-- The segments of a namespace as the delimiter of its stored form cuts them. -/
def pieces (ns : List String) : List (List Char) :=
  Delimited.pieces Runkite.nsDelim (ns.map String.toList)

/-- A runner reads what it put under a namespace, and nothing put under another, exactly if the key is
not empty, no segment of the namespace has a comma, and the namespaces differ when they are cut at the
delimiter. -/
theorem proxy_iff (h : Label ns) : ReadsBack ns key ∧ (ns ≠ ns' → Unseen ns ns' key) ↔
      key ≠ "" ∧ (∀ s ∈ ns, Strings.Free ',' s) ∧ (ns ≠ ns' → pieces ns ≠ pieces ns') := by
  rw [readsBack_iff h, cell_eq_iff h, and_assoc]
  refine and_congr_right fun hkey => and_congr_right fun hfree => ?_
  rw [unseen_iff h hkey, (cell_eq_iff h).2 hfree, Ne, Ne, Ne, pieces, pieces,
    ← Delimited.wrap_eq_iff, Runkite.nsToString, Runkite.nsToString, wrapNs, wrapNs, String.ofList_inj]

/-- Two plain namespaces. -/
theorem proxy_plain : ReadsBack ["users", "ada"] "theme" ∧
    Unseen ["users", "ada"] ["users", "bob"] "theme" := by
  have hlabel : Label ["users", "ada"] := ⟨by decide, by decide⟩
  have h := (@proxy_iff "theme" _ ["users", "bob"] hlabel).2 ⟨by decide, by decide, by decide⟩
  exact ⟨h.1, h.2 (by decide)⟩

/-- The table after a put of the empty value under a namespace. -/
def putEmpty (ns : List String) : ItemTable :=
  (proxyOne "default" 0 Table.empty (.put ns "k" (some Dict.empty) none)).2

/-- A value that is put under one segment with a comma is not found again, and what is found there was
put under two segments. -/
theorem comma_misread : Label ["a,b"] ∧
    (proxyOne "default" 1 (putEmpty ["a,b"]) (.get ["a,b"] "k" true)).1 = .ok none ∧
    (proxyOne "default" 1 (putEmpty ["a", "b"]) (.get ["a,b"] "k" true)).1 =
      .ok (some ⟨["a", "b"], "k", .object [], 0, 0⟩) ∧
    ¬ReadsBack ["a,b"] "k" ∧ ¬Unseen ["a,b"] ["a", "b"] "k" := by
  have hlabel : Label ["a,b"] := ⟨by decide, by decide⟩
  refine ⟨hlabel, rfl, rfl, ?_, ?_⟩
  · rw [readsBack_iff hlabel]
    decide
  · rw [unseen_iff hlabel (by decide)]
    decide

end Runner

end Runkite
