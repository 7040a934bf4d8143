import Runkite.Namespaces
import Runkite.NumberToken
import Runkite.Store

/-!
# Store items

The key-value store that runs share : one row for each tenant, namespace and key. The value of an item
is kept as a JSON document with its numbers as they were written. An item may have a time to live; one that has
expired is not read, and a read that refreshes it starts its time again.

`ItemTable.get?_putItem` says what a put leaves of every row and `ItemTable.getItem_eq` what a read of
one tenant answers : the row of the namespace's stored form, unless it has expired.
-/

open Json

namespace Runkite

/-! ## Documents -/

/-- A JSON document whose numbers are tokens. -/
abbrev Document := Value NumberToken

/-- `jsonvalue.Unmarshal` into a map : the last of duplicate keys wins and numbers stay tokens. The
inner `none` is the nil map that a `null` leaves. -/
def unmarshalValue : Document → Option (Option (Members NumberToken))
  | .null => some none
  | .object ms => (traverseMembers some Members.lastWins ms).map fun ms => some (Members.lastWins ms)
  | _ => none

/-- `json.Marshal` of a map : keys in order; the nil map is `null`. -/
def marshalValue (value : Option (Members NumberToken)) : Document :=
  (Json.traverse some Members.sortKeys (value.elim .null .object)).getD .null

theorem marshalValue_unmarshalValue {ms : Members NumberToken} (h : (Value.object ms).Canonical) :
    ∃ ms', unmarshalValue (.object ms) = some (some ms') ∧ marshalValue (some ms') = .object ms := by
  obtain ⟨ws, hws⟩ := Option.isSome_iff_exists.1 (@isSome_traverseMembers _ _ some Members.lastWins _
    (allMembers_of_forall (fun _ => rfl) ms))
  refine ⟨Members.lastWins ws, by simp [unmarshalValue, hws], ?_⟩
  have hback : Json.traverse some Members.sortKeys (Value.object (Members.lastWins ws)) =
      some (Value.object ms) :=
    traverse_sortKeys_lastWins (fun _ _ hn => hn.symm) h (by simp [Json.traverse, hws])
  rw [marshalValue, Option.elim_some, hback, Option.getD_some]

/-! ## Rows -/

/-- Instants are nanoseconds; the text of an expiry has a fixed width, so its order is theirs. The
times of creation and update are kept to the second. -/
structure StoreRow where
  tenantId : String
  ns : String
  key : String
  value : Document
  createdAt : ℤ
  updatedAt : ℤ
  ttlMinutes : Option ℚ
  expiresAt : Option ℤ

/-- The primary key : tenant, namespace and key. -/
def StoreRow.primary (r : StoreRow) : String × String × String := (r.tenantId, r.ns, r.key)

/-- `expires_at IS NULL OR expires_at > ?`. -/
def StoreRow.live (now : ℤ) (r : StoreRow) : Bool := r.expiresAt.all fun t => now < t

/-- The item of a request or an answer; the value may be the nil map. -/
structure StoreItem where
  ns : List String
  key : String
  value : Option (Members NumberToken)
  createdAt : ℤ
  updatedAt : ℤ
  ttlMinutes : Option ℚ

/-- The nanoseconds of a number of minutes, rounded as binary64 and cut to an integer. -/
def ttlNanos (minutes : ℚ) : ℤ :=
  let x := (Binary64.ofRat (minutes * 60000000000)).getD 0
  if 0 ≤ x then ⌊x⌋ else ⌈x⌉

def storeItemExpiresAt (now : ℤ) (ttlMinutes : Option ℚ) : Option ℤ :=
  ttlMinutes.map fun m => now + ttlNanos m

/-- The whole seconds of an instant. -/
def seconds (now : ℤ) : ℤ := now / 1000000000

abbrev ItemTable := Table StoreRow (String × String × String) StoreRow.primary

/-- The row a put writes where there is none. -/
def StoreItem.row (ctx : Ctx) (now : ℤ) (item : StoreItem) : StoreRow where
  tenantId := ctx.tenant
  ns := nsToString item.ns
  key := item.key
  value := marshalValue item.value
  createdAt := seconds now
  updatedAt := seconds now
  ttlMinutes := item.ttlMinutes
  expiresAt := storeItemExpiresAt now item.ttlMinutes

/-- What a put makes of a row that is there. -/
def StoreItem.rewrite (now : ℤ) (item : StoreItem) (r : StoreRow) : StoreRow :=
  { r with
    value := marshalValue item.value
    updatedAt := seconds now
    ttlMinutes := item.ttlMinutes
    expiresAt := storeItemExpiresAt now item.ttlMinutes }

/-- The item of a row, with the value that its document holds. -/
def StoreRow.item (value : Option (Members NumberToken)) (r : StoreRow) : StoreItem where
  ns := stringToNs r.ns
  key := r.key
  value := value
  createdAt := r.createdAt
  updatedAt := r.updatedAt
  ttlMinutes := none

/-- A read that refreshes starts the time to live again. -/
def StoreRow.refresh (now : ℤ) (r : StoreRow) (r' : StoreRow) : StoreRow :=
  { r' with expiresAt := storeItemExpiresAt now r.ttlMinutes }

namespace ItemTable

/-! ## Operations -/

def putItem (ctx : Ctx) (now : ℤ) (item : StoreItem) (t : ItemTable) : ItemTable :=
  t.upsert (item.row ctx now) (item.rewrite now) fun _ => rfl

/-- The table after a row was read. -/
def touch (now : ℤ) (refreshTTL : Bool) (r : StoreRow) (t : ItemTable) : ItemTable :=
  if refreshTTL && r.ttlMinutes.isSome then
    t.update (fun r' => r'.primary = r.primary) (r.refresh now) fun _ => rfl
  else t

def getItem (ctx : Ctx) (now : ℤ) (ns : List String) (key : String) (refreshTTL : Bool)
    (t : ItemTable) : Except StoreError (StoreItem × ItemTable) :=
  match t.select fun r =>
      r.ns = nsToString ns && r.key = key && r.live now && ctx.sees r.tenantId with
  | none => .error (.notFound "store_item" key)
  | some r =>
    match unmarshalValue r.value with
    | none => .error .json
    | some value => .ok (r.item value, t.touch now refreshTTL r)

def deleteItem (ctx : Ctx) (ns : List String) (key : String) (t : ItemTable) :
    Except StoreError ItemTable :=
  let p : StoreRow → Bool := fun r => r.ns = nsToString ns && r.key = key && ctx.sees r.tenantId
  if t.rows.any p then .ok (t.delete p) else .error (.notFound "store_item" key)

/-! ## What is read and written -/

variable {ctx : Ctx}

theorem get?_putItem (now : ℤ) (item : StoreItem) (t : ItemTable) (k : String × String × String) :
    Table.get? (t.putItem ctx now item) k =
      if k = (ctx.tenant, nsToString item.ns, item.key) then
        some ((Table.get? t k).elim (item.row ctx now) (item.rewrite now))
      else Table.get? t k :=
  Table.get?_upsert t (item.row ctx now) (item.rewrite now) (fun _ => rfl) k

/-- The row that a request of one tenant reads. -/
theorem select_live_eq (hctx : ctx.system = false) (now : ℤ) (ns key : String) (t : ItemTable) :
    (t.select fun r => r.ns = ns && r.key = key && r.live now && ctx.sees r.tenantId) =
      (Table.get? t (ctx.tenant, ns, key)).filter (StoreRow.live now) := by
  rw [← Table.select_key_and]
  congr 1
  funext r
  rw [Bool.eq_iff_iff]
  simp only [Ctx.sees, hctx, StoreRow.primary, Bool.false_or, Bool.and_eq_true, decide_eq_true_eq,
    Prod.mk.injEq]
  tauto

/-- A read answers with the row of the namespace's stored form and the key, unless it has expired. -/
theorem getItem_eq (hctx : ctx.system = false) (now : ℤ) (ns : List String) (key : String)
    (refreshTTL : Bool) (t : ItemTable) : t.getItem ctx now ns key refreshTTL =
      match (Table.get? t (ctx.tenant, nsToString ns, key)).filter (StoreRow.live now) with
      | none => .error (.notFound "store_item" key)
      | some r =>
        match unmarshalValue r.value with
        | none => .error .json
        | some value => .ok (r.item value, t.touch now refreshTTL r) := by
  rw [getItem, select_live_eq hctx]

end ItemTable

end Runkite
