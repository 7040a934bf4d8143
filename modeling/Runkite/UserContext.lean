import Runkite.Json

/-!
# The identity of a run on the wire

A run's assignment carries the identity that created the run. `marshalJSON` writes the typed fields
and lays the entries of `Extra` beside them in the same object, except under a key that is already
there. A display name or a list of permissions is only there if it is not empty, so an entry of that
name takes the place of an empty one, and `unmarshalJSON` reads it as the field.

`Keeps` is what the receiver is owed : the four typed fields as they were sent.
-/

open Json (Members Number Text Value reread)

namespace Runkite

/-- `extra` is a Go map, so its keys are distinct. -/
structure UserContext where
  identity : String
  displayName : String
  isAuthenticated : Bool
  permissions : List String
  extra : Members Number
  distinct : extra.Distinct

namespace UserContext

/-- The zero value that a decoder starts from. -/
def zero : UserContext where
  identity := ""
  displayName := ""
  isAuthenticated := false
  permissions := []
  extra := []
  distinct := List.nodup_nil

/-- The members of the typed fields. -/
def typed (u : UserContext) : Members Number :=
  [("identity", .string u.identity), ("is_authenticated", .bool u.isAuthenticated)] ++
    (if u.displayName ≠ "" then [("display_name", .string u.displayName)] else []) ++
    (if u.permissions ≠ [] then [("permissions", .array (u.permissions.map .string))] else [])

/-- The entries of `Extra` under keys that no typed field has taken. -/
def spread (u : UserContext) : Members Number :=
  u.extra.filter fun m => (u.typed.lookup m.1).isNone

def members (u : UserContext) : Members Number := u.typed ++ u.spread

def marshalJSON (u : UserContext) : Option Text := Json.marshal (.object u.members)

/-- The string a value is. -/
def text? {ν : Type} : Value ν → Option String
  | .string s => some s
  | _ => none

/-- The strings of an array, its other items left out. -/
def strings {ν : Type} (items : List (Value ν)) : List String := items.filterMap text?

def reserved : List String :=
  ["identity", "display_name", "is_authenticated", "permissions", "extra"]

/-- `Extra` as it is read : a nested object under `extra`, then the keys that are not reserved. -/
def readExtra (m : Members Number) : Members Number :=
  Members.override
    (Members.override [] (match m.lookup "extra" with
      | some (.object nested) => nested
      | _ => []))
    (m.filter fun e => e.1 ∉ reserved)

theorem distinct_readExtra (m : Members Number) : (readExtra m).Distinct :=
  ((show Members.Distinct ([] : Members Number) from List.nodup_nil).override _).override _

/-- What `UnmarshalJSON` makes of the decoded map. -/
def assign (m : Members Number) (u : UserContext) : UserContext where
  identity := match m.lookup "identity" with
    | some (.string s) => s
    | _ => u.identity
  displayName := match m.lookup "display_name" with
    | some (.string s) => s
    | _ => u.displayName
  isAuthenticated := match m.lookup "is_authenticated" with
    | some (.bool b) => b
    | _ => u.isAuthenticated
  permissions := match m.lookup "permissions" with
    | some (.array items) => u.permissions ++ strings items
    | _ => u.permissions
  extra := if (readExtra m).isEmpty then u.extra else readExtra m
  distinct := by
    split_ifs
    · exact u.distinct
    · exact distinct_readExtra m

def unmarshalJSON (data : Text) (u : UserContext) : Option UserContext :=
  (Json.unmarshalMap Json.decodeFloat data).map fun m => u.assign (m.getD [])

/-- The four typed fields are as they were. -/
structure Keeps (u v : UserContext) : Prop where
  identity : v.identity = u.identity
  displayName : v.displayName = u.displayName
  isAuthenticated : v.isAuthenticated = u.isAuthenticated
  permissions : v.permissions = u.permissions

/-! ## The written map -/

section

variable (u : UserContext)

theorem lookup_members (k : String) :
    u.members.lookup k = (u.typed.lookup k).or (u.extra.lookup k) := by
  rw [members, List.lookup_append, spread,
    Members.lookup_filter fun k => (u.typed.lookup k).isNone]
  rcases u.typed.lookup k with _ | v
  · rfl
  · rfl

theorem distinct_typed : u.typed.Distinct := by
  unfold typed Members.Distinct
  split_ifs <;> simp

theorem distinct_members : u.members.Distinct := by
  unfold members Members.Distinct
  rw [List.map_append, List.nodup_append]
  refine ⟨u.distinct_typed, u.distinct.sublist (List.filter_sublist.map _), ?_⟩
  rintro k hk k' hk' rfl
  obtain ⟨m, hm, rfl⟩ := List.mem_map.1 hk'
  have hnone := (List.mem_filter.1 hm).2
  rw [Option.isNone_iff_eq_none, Members.lookup_eq_none_iff] at hnone
  exact hnone hk

theorem lookup_typed_displayName : u.typed.lookup "display_name" =
      if u.displayName = "" then none else some (.string u.displayName) := by
  unfold typed
  split_ifs <;> simp_all [List.lookup_cons]

theorem lookup_typed_permissions : u.typed.lookup "permissions" =
      if u.permissions = [] then none else some (.array (u.permissions.map .string)) := by
  unfold typed
  split_ifs <;> simp_all [List.lookup_cons]

end

/-! ## What is read of it -/

variable {ν μ : Type} {f : ν → Option μ} {norm : Members μ → Members μ} {v : Value ν} {w : Value μ}

theorem text?_traverse (h : Json.traverse f norm v = some w) : text? w = text? v := by
  cases v with
  | number =>
    obtain ⟨m, -, rfl⟩ := Option.map_eq_some_iff.1 h
    rfl
  | array | object =>
    obtain ⟨_, -, rfl⟩ := Option.map_eq_some_iff.1 h
    rfl
  | _ =>
    cases h
    rfl

theorem strings_traverseItems {vs : List (Value ν)} {ws : List (Value μ)}
    (h : Json.traverseItems f norm vs = some ws) : strings ws = strings vs := by
  induction vs generalizing ws with
  | nil =>
    cases h
    rfl
  | cons v vs ih =>
    obtain ⟨w, hw, hws⟩ := Option.bind_eq_some_iff.1 h
    obtain ⟨_, hws', rfl⟩ := Option.map_eq_some_iff.1 hws
    rw [strings, List.filterMap_cons, text?_traverse hw, ← strings, ih hws']
    rfl

/-- The strings of the array a value is, none if it is something else. -/
def asStrings {κ : Type} : Value κ → List String
  | .array items => strings items
  | _ => []

theorem asStrings_traverse (h : Json.traverse f norm v = some w) : asStrings w = asStrings v := by
  cases v with
  | number =>
    obtain ⟨m, -, rfl⟩ := Option.map_eq_some_iff.1 h
    rfl
  | array =>
    obtain ⟨ws, hws, rfl⟩ := Option.map_eq_some_iff.1 h
    exact strings_traverseItems hws
  | object =>
    obtain ⟨_, -, rfl⟩ := Option.map_eq_some_iff.1 h
    rfl
  | _ =>
    cases h
    rfl

theorem asString_eq {κ : Type} (v : Value κ) : v.asString = (text? v).getD "" := by
  cases v <;> rfl

/-- A value keeps its strings when it is written and read. -/
theorem strings_reread {v w : Value Number} (h : reread v = some w) :
    w.asString = v.asString ∧ asStrings w = asStrings v := by
  obtain ⟨d, hd, hw⟩ := Option.bind_eq_some_iff.1 h
  constructor
  · rw [asString_eq, asString_eq, text?_traverse hw, text?_traverse hd]
  · rw [asStrings_traverse hw, asStrings_traverse hd]

/-- The strings of the array under a key. -/
def stringsUnder (k : String) (m : Members Number) : List String :=
  (m.lookup k).elim [] asStrings

/-- The map `m` is what `ms` becomes when it is written and read. -/
structure ReadBack (ms m : Members Number) : Prop where
  lookup : ∀ k, m.lookup k = (ms.lookup k).bind reread
  readable : ∀ e ∈ ms, (reread e.2).isSome
  distinct : ms.Distinct

namespace ReadBack

variable {ms m : Members Number}

section

variable (h : ReadBack ms m) (k : String)
include h

/-- A key is there before and after, with the same strings, or not at all. -/
theorem cases : (ms.lookup k = none ∧ m.lookup k = none) ∨
      ∃ v w, ms.lookup k = some v ∧ m.lookup k = some w ∧ reread v = some w := by
  rcases hv : ms.lookup k with _ | v
  · exact .inl ⟨rfl, by rw [h.lookup, hv]; rfl⟩
  · obtain ⟨w, hw⟩ := Option.isSome_iff_exists.1
      (h.readable (k, v) ((Members.lookup_eq_some_iff h.distinct).1 hv))
    exact .inr ⟨v, w, rfl, by rw [h.lookup, hv]; exact hw, hw⟩

theorem string : m.string k = ms.string k := by
  rcases h.cases k with ⟨hv, hw⟩ | ⟨v, w, hv, hw, hread⟩
  · simp [Members.string, hv, hw]
  · simp [Members.string, hv, hw, (strings_reread hread).1]

theorem stringsUnder : UserContext.stringsUnder k m = UserContext.stringsUnder k ms := by
  rcases h.cases k with ⟨hv, hw⟩ | ⟨v, w, hv, hw, hread⟩
  · simp [UserContext.stringsUnder, hv, hw]
  · simp [UserContext.stringsUnder, hv, hw, (strings_reread hread).2]

end

end ReadBack

section

variable (u : UserContext)

/-- A written context is read back member by member, unless one of them cannot be read. -/
theorem exists_marshalJSON : ∃ t, u.marshalJSON = some t ∧
      ((∃ e ∈ u.members, reread e.2 = none) → unmarshalJSON t zero = none) ∧
      ((∀ e ∈ u.members, (reread e.2).isSome) →
        ∃ m, unmarshalJSON t zero = some (zero.assign m) ∧ ReadBack u.members m) := by
  obtain ⟨t, ht, hnone, hsome⟩ := Json.unmarshalMap_marshal_iff u.distinct_members
  refine ⟨t, ht, fun h => ?_, fun h => ?_⟩
  · rw [unmarshalJSON, hnone h]
    rfl
  · obtain ⟨m, hm, hk⟩ := hsome h
    exact ⟨m, by rw [unmarshalJSON, hm]; rfl, hk, h, u.distinct_members⟩

/-- A typed member can always be read. -/
theorem isSome_reread_typed : ∀ e ∈ u.typed, (reread e.2).isSome := by
  have hstrings : ∀ ss : List String,
      ∀ p : Number → Prop, Json.AllItems p (ss.map Value.string) := by
    intro ss p
    induction ss with
    | nil => trivial
    | cons s ss ih => exact ⟨trivial, ih⟩
  intro e he
  refine Json.isSome_reread ?_
  simp only [typed, List.mem_append, List.mem_cons, List.not_mem_nil, or_false] at he
  rcases he with ((rfl | rfl) | he) | he
  · trivial
  · trivial
  · split_ifs at he with hd
    · rw [List.mem_singleton.1 he]
      trivial
    · cases he
  · split_ifs at he with hp
    · rw [List.mem_singleton.1 he]
      exact hstrings u.permissions _
    · cases he

theorem readable_members_iff :
    (∀ e ∈ u.members, (reread e.2).isSome) ↔ ∀ e ∈ u.spread, (reread e.2).isSome := by
  rw [members, List.forall_mem_append]
  exact and_iff_right u.isSome_reread_typed

theorem string_members : u.members.string "display_name" =
      if u.displayName = "" then u.extra.string "display_name" else u.displayName := by
  rw [Members.string, lookup_members, lookup_typed_displayName]
  by_cases h : u.displayName = ""
  · rw [if_pos h, if_pos h]
    rfl
  · rw [if_neg h, if_neg h]
    rfl

theorem stringsUnder_members : stringsUnder "permissions" u.members =
      if u.permissions = [] then stringsUnder "permissions" u.extra else u.permissions := by
  rw [stringsUnder, lookup_members, lookup_typed_permissions]
  by_cases h : u.permissions = []
  · rw [if_pos h, if_pos h]
    rfl
  · rw [if_neg h, if_neg h]
    change strings (u.permissions.map .string) = u.permissions
    simp [strings, List.filterMap_map, Function.comp_def, text?]

end

/-- What is read of a written context. -/
theorem assign_readBack {u : UserContext} {m : Members Number} (h : ReadBack u.members m) :
    (zero.assign m).identity = u.identity ∧
      (zero.assign m).isAuthenticated = u.isAuthenticated ∧
      (zero.assign m).displayName =
        (if u.displayName = "" then u.extra.string "display_name" else u.displayName) ∧
      (zero.assign m).permissions =
        if u.permissions = [] then stringsUnder "permissions" u.extra else u.permissions := by
  have hid : m.lookup "identity" = some (.string u.identity) := by
    rw [h.lookup, lookup_members]
    rfl
  have hauth : m.lookup "is_authenticated" = some (.bool u.isAuthenticated) := by
    rw [h.lookup, lookup_members]
    rfl
  refine ⟨?_, ?_, ?_, ?_⟩
  · simp [assign, hid]
  · simp [assign, hauth]
  · rw [← string_members, ← h.string]
    simp only [assign, Members.string, zero]
    rcases m.lookup "display_name" with _ | _ | _ | _ | _ | _ | _ <;> rfl
  · rw [← stringsUnder_members, ← h.stringsUnder]
    simp only [assign, stringsUnder, zero]
    rcases m.lookup "permissions" with _ | _ | _ | _ | _ | _ | _ <;> rfl

/-- A context arrives : what is decoded from its encoding has its typed fields. -/
def Arrives (u : UserContext) : Prop :=
  ∃ t v, u.marshalJSON = some t ∧ unmarshalJSON t zero = some v ∧ u.Keeps v

/-- `Extra` stays out of the typed fields. -/
structure Apart (u : UserContext) : Prop where
  /-- Every number that is sent is one that the decoder can read. -/
  readable : ∀ e ∈ u.spread, (reread e.2).isSome
  displayName : u.displayName = "" → u.extra.string "display_name" = ""
  permissions : u.permissions = [] → stringsUnder "permissions" u.extra = []

/-- The identity survives the wire exactly if `Extra` has no display name and no permissions
where the context has none, and nothing that cannot be decoded. -/
theorem arrives_iff_apart (u : UserContext) : u.Arrives ↔ u.Apart := by
  obtain ⟨t, ht, hnone, hsome⟩ := u.exists_marshalJSON
  constructor
  · rintro ⟨t', v, ht', hv, hkeep⟩
    cases ht.symm.trans ht'
    have hread : ∀ e ∈ u.members, (reread e.2).isSome := by
      intro e he
      by_contra hno
      rw [hnone ⟨e, he, Option.not_isSome_iff_eq_none.1 hno⟩] at hv
      cases hv
    obtain ⟨m, hm, hback⟩ := hsome hread
    cases hm.symm.trans hv
    obtain ⟨-, -, hname, hperm⟩ := assign_readBack hback
    refine ⟨u.readable_members_iff.1 hread, fun h => ?_, fun h => ?_⟩
    · rw [hkeep.displayName, if_pos h, h] at hname
      exact hname.symm
    · rw [hkeep.permissions, if_pos h, h] at hperm
      exact hperm.symm
  · intro h
    obtain ⟨m, hm, hback⟩ := hsome (u.readable_members_iff.2 h.readable)
    obtain ⟨hid, hauth, hname, hperm⟩ := assign_readBack hback
    refine ⟨t, _, ht, hm, hid, ?_, hauth, ?_⟩
    · rw [hname]
      split_ifs with hd
      · rw [h.displayName hd, hd]
      · rfl
    · rw [hperm]
      split_ifs with hp
      · rw [h.permissions hp, hp]
      · rfl

/-- A key's metadata names the permission to administer, which the key does not have. -/
def escalating : UserContext where
  identity := "svc"
  displayName := ""
  isAuthenticated := true
  permissions := []
  extra := [("permissions", .array [.string "admin"])]
  distinct := List.nodup_singleton _

/-- The runner reads a permission from `Extra`. -/
theorem escalating_not_arrives : escalating.permissions = [] ∧
      (escalating.marshalJSON.bind fun t => unmarshalJSON t zero).map (·.permissions) =
        some ["admin"] := by
  refine ⟨rfl, ?_⟩
  decide +kernel

end UserContext

end Runkite
