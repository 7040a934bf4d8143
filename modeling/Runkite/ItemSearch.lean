import Runkite.OpaqueCheckpoints
import Runkite.StoreItems

/-!
# Searching store items

`SearchItems` and `ListNamespaces` of the SQLite store. A search selects the items that have not expired,
under a namespace prefix and with the values of a filter, and answers with a page of them, the latest
first. How the conditions of a filter are evaluated is a parameter here.

`selectWhere_eq` : a query selects the rows that its condition holds for, if it fails on none.
-/

open Json

namespace Runkite

structure StoreSearchRequest where
  namespacePrefix : List String
  /-- The members of the filter, in the order in which they are visited. -/
  filter : Members NumberToken
  limit : ℤ
  offset : ℤ
  refreshTTL : Option Bool

structure StoreListNamespacesRequest where
  nsPrefix : List String
  nsSuffix : List String
  maxDepth : Option ℤ
  limit : ℤ
  offset : ℤ

/-- What the conditions of a filter say of a value; a condition may fail. -/
abbrev FilterHolds := Members NumberToken → Document → Except StoreError Bool

/-- The rows that a condition holds for; a condition that fails on a row fails the query. -/
def selectWhere (p : StoreRow → Except StoreError Bool) : List StoreRow →
    Except StoreError (List StoreRow)
  | [] => .ok []
  | r :: rows => do
    let selected ← p r
    let rest ← selectWhere p rows
    return if selected then r :: rest else rest

/-- A page of the selected rows as items; their values are decoded and their expiry is refreshed. -/
def itemsPage (order : Ranking StoreRow.updatedAt) (now : ℤ) (req : StoreSearchRequest)
    (rows : List StoreRow) (t : ItemTable) : Except StoreError (List StoreItem × ItemTable) := do
  let limit := if req.limit ≤ 0 then 10 else req.limit
  let page := ((order.sort rows).drop req.offset.toNat).take limit.toNat
  let items ← page.mapM fun r =>
    (unmarshalValue r.value).elim (.error .json) fun value => .ok (r.item value)
  return (items, page.foldl (fun t r => t.touch now (req.refreshTTL.getD true) r) t)

def nsPrefixPattern (ns : List String) : String := if ns = [] then "%" else nsToString ns ++ "%"

def nsSuffixPattern (ns : List String) : String := if ns = [] then "%" else "%" ++ nsToString ns

/-- `namespace LIKE ?`. -/
def likeNs (pattern ns : String) : Bool := sqlLike pattern.toList ns.toList

def rowHolds (like : String → String → Bool) (filterHolds : FilterHolds) (ctx : Ctx) (now : ℤ)
    (req : StoreSearchRequest) (r : StoreRow) : Except StoreError Bool :=
  if r.live now && ctx.sees r.tenantId &&
      (req.namespacePrefix = [] || like (nsPrefixPattern req.namespacePrefix) r.ns) then
    filterHolds req.filter r.value
  else .ok false

namespace Sqlite

/-- The rows that a search selects, before they are ordered and cut to a page. -/
def selected (filterHolds : FilterHolds) (ctx : Ctx) (now : ℤ) (req : StoreSearchRequest)
    (t : ItemTable) : Except StoreError (List StoreRow) :=
  selectWhere (rowHolds likeNs filterHolds ctx now req) t.rows

def searchItems (filterHolds : FilterHolds) (order : Ranking StoreRow.updatedAt) (ctx : Ctx) (now : ℤ)
    (req : StoreSearchRequest) (t : ItemTable) : Except StoreError (List StoreItem × ItemTable) := do
  let rows ← selected filterHolds ctx now req t
  itemsPage order now req rows t

/-- `SELECT DISTINCT namespace FROM store_items WHERE …`. -/
def listed (ctx : Ctx) (req : StoreListNamespacesRequest) (t : ItemTable) : List String :=
  ((t.rows.filter fun r => ctx.sees r.tenantId &&
      (req.nsPrefix = [] || likeNs (nsPrefixPattern req.nsPrefix) r.ns) &&
      (req.nsSuffix = [] || likeNs (nsSuffixPattern req.nsSuffix) r.ns)).map StoreRow.ns).dedup

/-- Neither the expiry of the items nor the depth of the request is looked at. -/
def listNamespaces (ctx : Ctx) (req : StoreListNamespacesRequest) (t : ItemTable) :
    List (List String) :=
  let limit := if req.limit ≤ 0 then 100 else req.limit
  ((((listed ctx req t).insertionSort (· ≤ ·)).drop req.offset.toNat).take limit.toNat).map stringToNs

end Sqlite

/-! ## What is selected -/

theorem selectWhere_eq {p : StoreRow → Except StoreError Bool} {spec : StoreRow → Bool} :
    ∀ {rows : List StoreRow}, (∀ r ∈ rows, p r = .ok (spec r)) →
      selectWhere p rows = .ok (rows.filter spec)
  | [], _ => rfl
  | r :: rows, h => by
    have ih := selectWhere_eq fun r' hr' => h r' (List.mem_cons_of_mem r hr')
    rw [selectWhere, h r List.mem_cons_self, ih]
    cases hs : spec r <;> simp [hs, bind, Except.bind, pure, Except.pure]

/-- A row on its own tells what the condition says of it. -/
theorem eq_ok_of_selectWhere {p : StoreRow → Except StoreError Bool} {b : Bool} {r : StoreRow}
    (h : selectWhere p [r] = .ok ([r].filter fun _ => b)) : p r = .ok b := by
  cases hp : p r with
  | error => simp [selectWhere, hp, bind, Except.bind] at h
  | ok b' => cases b <;> cases b' <;> simp_all [selectWhere, bind, Except.bind, pure, Except.pure]

end Runkite
