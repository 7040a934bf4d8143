import Mathlib.Data.List.Sort
import Mathlib.Data.String.Basic
import Runkite.Binary64

/-!
# JSON documents and decoded values

`Value ν` is a JSON tree over a type of numbers : a document is a `Value Decimal`, a value
in memory a `Value Number`, whose numbers are machine integers, binary64 numbers or
literals kept as they were read.

`traverse` is the common shape of the codecs. `marshal` prints numbers and sorts keys;
`unmarshalMap` reads numbers as binary64 or keeps them as literals, and the last of duplicate
keys wins. `reread` is what a value becomes when it is written and read again.
`Value.equalWith` compares trees, and `equalWith_traverse` says which rewritings it does not see.
-/

set_option linter.unusedSectionVars false

open Binary64 (Decimal Representable)

namespace Json

/-! ## Values -/

/-- A JSON tree whose numbers are of type `ν`. -/
inductive Value (ν : Type) where
  | null
  | bool (b : Bool)
  | number (n : ν)
  | string (s : String)
  | array (items : List (Value ν))
  | object (members : List (String × Value ν))

instance {ν : Type} : Inhabited (Value ν) := ⟨.null⟩

/-- The dynamic type of a number in memory : an integer, a binary64 number or the
literal of the document it came from. -/
inductive Number where
  | int (n : ℤ)
  | float64 (x : ℚ)
  | literal (d : Decimal)
deriving DecidableEq

/-- The members of an object, keys possibly repeated. -/
abbrev Members (ν : Type) := List (String × Value ν)

variable {ν μ : Type}

/-! ## Members as a finite map -/

variable {k : String} {ms : Members ν}

namespace Members

def erase (k : String) (ms : Members ν) : Members ν := ms.filter fun m => m.1 ≠ k

def insert (k : String) (v : Value ν) (ms : Members ν) : Members ν := (k, v) :: erase k ms

/-- Set every member of `new` in `old`. -/
def override (old new : Members ν) : Members ν :=
  new.foldr (fun m acc => insert m.1 m.2 acc) old

/-- The map a decoder builds from the members in order : the last of equal keys wins. -/
def lastWins (ms : Members ν) : Members ν := override [] ms.reverse

def sortKeys (ms : Members ν) : Members ν := ms.insertionSort fun a b => a.1 ≤ b.1

def Distinct (ms : Members ν) : Prop := (ms.map Prod.fst).Nodup

theorem lookup_member (k k' : String) (v : Value ν) (ms : Members ν) :
    List.lookup k ((k', v) :: ms) = if k = k' then some v else ms.lookup k := by
  by_cases h : k = k'
  · simp [h]
  · have hne : (k == k') = false := by simpa using h
    simp [List.lookup_cons, hne, h]

/-- Members chosen by their keys. -/
theorem lookup_filter (p : String → Bool) (k : String) :
    ∀ ms : Members ν, (ms.filter fun m => p m.1).lookup k = if p k then ms.lookup k else none
  | [] => by simp
  | (k₀, v) :: ms => by
    have ih := lookup_filter p k ms
    rw [List.filter_cons]
    by_cases hk : k = k₀
    · subst hk
      rcases hp : p k with _ | _
      · simpa [hp] using ih
      · simp
    · rw [lookup_member, if_neg hk, ← ih]
      rcases hp : p k₀ with _ | _
      · rfl
      · exact (lookup_member k k₀ v _).trans (if_neg hk)

theorem lookup_erase (k k' : String) (ms : Members ν) :
    (erase k ms).lookup k' = if k' = k then none else ms.lookup k' := by
  rw [erase, lookup_filter fun k' => k' ≠ k]
  by_cases hk : k' = k
  · simp [hk]
  · simp [hk]

@[simp] theorem lookup_insert_self (k : String) (v : Value ν) (ms : Members ν) :
    (insert k v ms).lookup k = some v := by simp [insert]

theorem lookup_insert_of_ne {k k' : String} (h : k' ≠ k) (v : Value ν) (ms : Members ν) :
    (insert k v ms).lookup k' = ms.lookup k' := by simp [insert, lookup_member, lookup_erase, h]

theorem lookup_override (old new : Members ν) (k : String) :
    (override old new).lookup k = (new.lookup k).or (old.lookup k) := by
  induction new with
  | nil => simp [override]
  | cons m new ih =>
    obtain ⟨k', v⟩ := m
    simp only [override, List.foldr_cons] at ih ⊢
    by_cases hk : k = k'
    · subst hk
      simp
    · rw [lookup_insert_of_ne hk, ih, lookup_member, if_neg hk]

theorem lookup_lastWins (ms : Members ν) (k : String) :
    (lastWins ms).lookup k = ms.reverse.lookup k := by simp [lastWins, lookup_override]

theorem Distinct.erase (h : ms.Distinct) (k : String) : (erase k ms).Distinct :=
  h.sublist (List.filter_sublist.map _)

theorem Distinct.insert (h : ms.Distinct) (k : String) (v : Value ν) : (insert k v ms).Distinct :=
  List.nodup_cons.2 ⟨by simp [Members.erase], h.erase k⟩

theorem Distinct.override {old : Members ν} (h : old.Distinct) :
    ∀ new, (override old new).Distinct
  | [] => h
  | m :: new => (Distinct.override h new).insert m.1 m.2

theorem distinct_lastWins (ms : Members ν) : (lastWins ms).Distinct :=
  Distinct.override (show Distinct ([] : Members ν) from List.nodup_nil) _

theorem perm_sortKeys (ms : Members ν) : (sortKeys ms).Perm ms := List.perm_insertionSort _ _

theorem Distinct.sortKeys (h : ms.Distinct) : (sortKeys ms).Distinct :=
  ((perm_sortKeys ms).map Prod.fst).nodup_iff.2 h

theorem lookup_eq_some_iff (h : ms.Distinct) {v : Value ν} :
    ms.lookup k = some v ↔ (k, v) ∈ ms := by
  induction ms with
  | nil => simp
  | cons m ms ih =>
    obtain ⟨k', _⟩ := m
    obtain ⟨hm, hms⟩ := List.nodup_cons.1 h
    by_cases hk : k = k'
    · subst hk
      have hnot : (k, v) ∉ ms := fun hmem => hm (List.mem_map.2 ⟨_, hmem, rfl⟩)
      simp [hnot, eq_comm]
    · simp [lookup_member, ih hms, hk]

/-- The order of distinct members does not matter to a lookup. -/
theorem lookup_eq_of_perm {ms ms' : Members ν} (h : ms.Distinct) (hp : ms.Perm ms') (k : String) :
    ms.lookup k = ms'.lookup k := by
  have h' : ms'.Distinct := (hp.map Prod.fst).nodup_iff.1 h
  apply Option.ext
  intro v
  rw [lookup_eq_some_iff h, lookup_eq_some_iff h', hp.mem_iff]

theorem Distinct.lookup_lastWins (h : ms.Distinct) (k : String) :
    (lastWins ms).lookup k = ms.lookup k := by
  rw [Members.lookup_lastWins, lookup_eq_of_perm h ms.reverse_perm.symm]

variable {m : String × Value ν}

theorem mem_of_mem_override {old new : Members ν} : m ∈ override old new → m ∈ new ∨ m ∈ old := by
  induction new with
  | nil => exact .inr
  | cons m' new ih =>
    intro h
    simp only [override, List.foldr_cons, insert, erase, List.mem_cons, List.mem_filter] at h
    rcases h with rfl | ⟨h, -⟩
    · exact .inl List.mem_cons_self
    · rcases ih h with h | h
      · exact .inl (List.mem_cons_of_mem _ h)
      · exact .inr h

theorem mem_of_mem_lastWins {ms : Members ν} (h : m ∈ lastWins ms) : m ∈ ms := by
  rcases mem_of_mem_override h with h | h
  · exact List.mem_reverse.1 h
  · simp at h

end Members

/-! ## Traversals -/

mutual

/-- Convert every number of a tree with `f`, which may fail, and rearrange the members of
every object with `norm`. -/
def traverse (f : ν → Option μ) (norm : Members μ → Members μ) : Value ν → Option (Value μ)
  | .null => some .null
  | .bool b => some (.bool b)
  | .number n => (f n).map .number
  | .string s => some (.string s)
  | .array vs => (traverseItems f norm vs).map .array
  | .object ms => (traverseMembers f norm ms).map fun ms => .object (norm ms)

def traverseItems (f : ν → Option μ) (norm : Members μ → Members μ) :
    List (Value ν) → Option (List (Value μ))
  | [] => some []
  | v :: vs => (traverse f norm v).bind fun w => (traverseItems f norm vs).map (w :: ·)

def traverseMembers (f : ν → Option μ) (norm : Members μ → Members μ) :
    List (String × Value ν) → Option (List (String × Value μ))
  | [] => some []
  | (k, v) :: ms =>
    (traverse f norm v).bind fun w => (traverseMembers f norm ms).map ((k, w) :: ·)

end

mutual

/-- Every number of a tree satisfies `p`. -/
def Value.All (p : ν → Prop) : Value ν → Prop
  | .null => True
  | .bool _ => True
  | .number n => p n
  | .string _ => True
  | .array vs => AllItems p vs
  | .object ms => AllMembers p ms

def AllItems (p : ν → Prop) : List (Value ν) → Prop
  | [] => True
  | v :: vs => v.All p ∧ AllItems p vs

def AllMembers (p : ν → Prop) : List (String × Value ν) → Prop
  | [] => True
  | (_, v) :: ms => v.All p ∧ AllMembers p ms

end

theorem allMembers_iff {p : ν → Prop} : ∀ {ms : Members ν}, AllMembers p ms ↔ ∀ m ∈ ms, m.2.All p
  | [] => by simp [AllMembers]
  | m :: ms => by
    simp [AllMembers, allMembers_iff]

mutual

theorem Value.all_of_forall {p : ν → Prop} (h : ∀ n, p n) : ∀ v : Value ν, v.All p
  | .null | .bool _ => trivial
  | .number n => h n
  | .string _ => trivial
  | .array vs => allItems_of_forall h vs
  | .object ms => allMembers_of_forall h ms

theorem allItems_of_forall {p : ν → Prop} (h : ∀ n, p n) : ∀ vs : List (Value ν), AllItems p vs
  | [] => trivial
  | v :: vs => ⟨Value.all_of_forall h v, allItems_of_forall h vs⟩

theorem allMembers_of_forall {p : ν → Prop} (h : ∀ n, p n) : ∀ ms, AllMembers p ms
  | [] => trivial
  | (_, v) :: ms => ⟨Value.all_of_forall h v, allMembers_of_forall h ms⟩

end

section Traverse

variable {f : ν → Option μ} {norm : Members μ → Members μ}

mutual

theorem isSome_traverse : ∀ {v : Value ν}, v.All (fun n => (f n).isSome) →
    (traverse f norm v).isSome
  | .null, _ | .bool _, _ => rfl
  | .number _, h => by simpa [traverse, Value.All] using h
  | .string _, _ => rfl
  | .array vs, h => by simpa [traverse] using isSome_traverseItems h
  | .object ms, h => by simpa [traverse] using isSome_traverseMembers h

theorem isSome_traverseItems : ∀ {vs : List (Value ν)}, AllItems (fun n => (f n).isSome) vs →
    (traverseItems f norm vs).isSome
  | [], _ => rfl
  | v :: vs, h => by
    obtain ⟨w, hw⟩ := Option.isSome_iff_exists.1 (isSome_traverse h.1)
    obtain ⟨_, hws⟩ := Option.isSome_iff_exists.1 (isSome_traverseItems h.2)
    simp [traverseItems, hw, hws]

theorem isSome_traverseMembers : ∀ {ms : Members ν}, AllMembers (fun n => (f n).isSome) ms →
    (traverseMembers f norm ms).isSome
  | [], _ => rfl
  | (k, v) :: ms, h => by
    obtain ⟨w, hw⟩ := Option.isSome_iff_exists.1 (isSome_traverse h.1)
    obtain ⟨_, hws⟩ := Option.isSome_iff_exists.1 (isSome_traverseMembers h.2)
    simp [traverseMembers, hw, hws]

end

theorem traverseMembers_cons {v : Value ν} {ms : Members ν} {ws : Members μ} :
    traverseMembers f norm ((k, v) :: ms) = some ws ↔ ∃ w, traverse f norm v = some w ∧
      ∃ ws', traverseMembers f norm ms = some ws' ∧ (k, w) :: ws' = ws := by
  simp [traverseMembers, Option.bind_eq_some_iff]

theorem keys_traverseMembers : ∀ {ms : Members ν} {ws : Members μ},
    traverseMembers f norm ms = some ws → ws.map Prod.fst = ms.map Prod.fst
  | [], _, h => by
    cases h
    rfl
  | (k, v) :: ms, _, h => by
    obtain ⟨w, -, _, hws, rfl⟩ := traverseMembers_cons.1 h
    simp [keys_traverseMembers hws]

theorem distinct_traverseMembers {ms : Members ν} {ws : Members μ} (h : ms.Distinct)
    (hws : traverseMembers f norm ms = some ws) : ws.Distinct := by
  rwa [Members.Distinct, keys_traverseMembers hws]

theorem lookup_traverseMembers (k : String) : ∀ {ms : Members ν} {ws : Members μ},
    traverseMembers f norm ms = some ws → ws.lookup k = (ms.lookup k).bind (traverse f norm)
  | [], _, h => by
    cases h
    rfl
  | (k', v) :: ms, _, h => by
    obtain ⟨w, hw, _, hws, rfl⟩ := traverseMembers_cons.1 h
    rw [Members.lookup_member, Members.lookup_member, lookup_traverseMembers k hws]
    split_ifs
    · exact hw.symm
    · rfl

theorem traverseMembers_concat {v : Value ν} {w : Value μ}
    (hw : traverse f norm v = some w) : ∀ {ms : Members ν} {ws : Members μ},
    traverseMembers f norm ms = some ws →
    traverseMembers f norm (ms ++ [(k, v)]) = some (ws ++ [(k, w)])
  | [], _, h => by
    cases h
    simp [traverseMembers, hw]
  | (k', v') :: ms, _, h => by
    obtain ⟨w', hw', _, hws, rfl⟩ := traverseMembers_cons.1 h
    exact traverseMembers_cons.2 ⟨w', hw', _, traverseMembers_concat hw hws, rfl⟩

theorem traverseMembers_reverse : ∀ {ms : Members ν} {ws : Members μ},
    traverseMembers f norm ms = some ws → traverseMembers f norm ms.reverse = some ws.reverse
  | [], _, h => by
    cases h
    rfl
  | (k, v) :: ms, _, h => by
    obtain ⟨w, hw, _, hws, rfl⟩ := traverseMembers_cons.1 h
    rw [List.reverse_cons, List.reverse_cons]
    exact traverseMembers_concat hw (traverseMembers_reverse hws)

/-- What a traversal relates, constructor by constructor. -/
structure Traversal (f : ν → Option μ) (norm : Members μ → Members μ)
    (R : Value ν → Value μ → Prop) (items : List (Value ν) → List (Value μ) → Prop)
    (members : Members ν → Members μ → Prop) : Prop where
  null : R .null .null
  bool : ∀ b, R (.bool b) (.bool b)
  number : ∀ {n m}, f n = some m → R (.number n) (.number m)
  string : ∀ s, R (.string s) (.string s)
  array : ∀ {vs ws}, items vs ws → R (.array vs) (.array ws)
  object : ∀ {ms ws}, traverseMembers f norm ms = some ws → members ms ws →
    R (.object ms) (.object (norm ws))
  nil : items [] []
  cons : ∀ {v w vs ws}, R v w → items vs ws → items (v :: vs) (w :: ws)
  noMembers : members [] []
  member : ∀ {k v w ms ws}, R v w → members ms ws → members ((k, v) :: ms) ((k, w) :: ws)

namespace Traversal

variable {R : Value ν → Value μ → Prop} {items : List (Value ν) → List (Value μ) → Prop}
  {members : Members ν → Members μ → Prop} (t : Traversal f norm R items members)
include t

mutual

theorem value : ∀ {v : Value ν} {w : Value μ}, Json.traverse f norm v = some w → R v w
  | .null, _, h => Option.some.inj h ▸ t.null
  | .bool b, _, h => Option.some.inj h ▸ t.bool b
  | .number _, _, h => by
    obtain ⟨m, hm, rfl⟩ := Option.map_eq_some_iff.1 h
    exact t.number hm
  | .string s, _, h => Option.some.inj h ▸ t.string s
  | .array _, _, h => by
    obtain ⟨ws, hws, rfl⟩ := Option.map_eq_some_iff.1 h
    exact t.array (values hws)
  | .object _, _, h => by
    obtain ⟨_, hws, rfl⟩ := Option.map_eq_some_iff.1 h
    exact t.object hws (entries hws)

theorem values : ∀ {vs : List (Value ν)} {ws : List (Value μ)},
    traverseItems f norm vs = some ws → items vs ws
  | [], _, h => Option.some.inj h ▸ t.nil
  | _ :: _, _, h => by
    obtain ⟨w, hw, h⟩ := Option.bind_eq_some_iff.1 h
    obtain ⟨_, hws, rfl⟩ := Option.map_eq_some_iff.1 h
    exact t.cons (value hw) (values hws)

theorem entries : ∀ {ms : Members ν} {ws : Members μ},
    traverseMembers f norm ms = some ws → members ms ws
  | [], _, h => Option.some.inj h ▸ t.noMembers
  | (_, _) :: _, _, h => by
    obtain ⟨w, hw, _, hws, rfl⟩ := traverseMembers_cons.1 h
    exact t.member (value hw) (entries hws)

end

end Traversal

/-- What a conversion guarantees of one number, a traversal guarantees of the tree. -/
theorem all_traversal {p : ν → Prop} {q : μ → Prop}
    (hnorm : ∀ (ms : Members μ), ∀ m ∈ norm ms, m ∈ ms) (hq : ∀ n m, p n → f n = some m → q m) :
    Traversal f norm (fun v w => v.All p → w.All q) (fun vs ws => AllItems p vs → AllItems q ws)
      (fun ms ws => AllMembers p ms → AllMembers q ws) where
  null _ := trivial
  bool _ _ := trivial
  number hm hn := hq _ _ hn hm
  string _ _ := trivial
  array := id
  object _ hall hms :=
    allMembers_iff.2 fun m hm => allMembers_iff.1 (hall hms) m (hnorm _ m hm)
  nil := id
  cons hv hvs h := ⟨hv h.1, hvs h.2⟩
  noMembers := id
  member hv hms h := ⟨hv h.1, hms h.2⟩

end Traverse

/-! ## Codecs -/

/-- How a number is printed. -/
def Number.encode : Number → Option Decimal
  | .int n => some ⟨n, 0⟩
  | .float64 x => some (Binary64.format x)
  | .literal d => some d

/-- Read a literal as binary64; it fails on a literal out of range. -/
def decodeFloat (d : Decimal) : Option Number := (Binary64.ofRat d.toRat).map .float64

/-- Keep a literal as it stands. -/
def decodeNumber (d : Decimal) : Option Number := some (.literal d)

/-- The text of a column or a message that should hold a JSON document. -/
inductive Text where
  | empty
  | malformed
  | document (v : Value Decimal)

/-- The document of a value : numbers printed, keys sorted. -/
abbrev encode (v : Value Number) : Option (Value Decimal) :=
  traverse Number.encode Members.sortKeys v

def marshal (v : Value Number) : Option Text := (encode v).map .document

/-- Decode a text into a map, reading numbers with `f`. The inner `none` is the nil map a
`null` document leaves. -/
def unmarshalMap (f : Decimal → Option Number) : Text → Option (Option (Members Number))
  | .document .null => some none
  | .document (.object ms) =>
    (traverseMembers f Members.lastWins ms).map fun ms => some (Members.lastWins ms)
  | _ => none

/-- The member a document holds under a key, as it is written there. -/
def Text.member (k : String) : Text → Option (Value Decimal)
  | .document (.object ms) => (Members.lastWins ms).lookup k
  | _ => none

/-- The string a value is, or the empty one. -/
def Value.asString : Value ν → String
  | .string s => s
  | _ => ""

/-- The string a map holds under a key, or the empty one. -/
def Members.string (ms : Members ν) (k : String) : String := (ms.lookup k).elim "" Value.asString

/-- The string a document holds under a key, or the empty one. -/
def Text.string (k : String) (t : Text) : String := (t.member k).elim "" Value.asString

/-- A number that is still readable as binary64 once it is printed. -/
def Number.Readable (n : Number) : Prop := (n.encode.bind decodeFloat).isSome

/-- What a value becomes when it is printed and then read with binary64 numbers. -/
def reread (v : Value Number) : Option (Value Number) :=
  (encode v).bind (traverse decodeFloat Members.lastWins)

theorem Number.isSome_encode (n : Number) : n.encode.isSome := by
  cases n <;> rfl

/-- What is in memory can be written. -/
theorem exists_marshal (v : Value Number) : ∃ t, marshal v = some t := by
  obtain ⟨d, hd⟩ := Option.isSome_iff_exists.1 (isSome_traverse (f := Number.encode)
    (Value.all_of_forall Number.isSome_encode v))
  exact ⟨.document d, by rw [marshal, encode, hd]; rfl⟩

theorem Number.readable_of_decodeFloat {d : Decimal} {n : Number} (h : decodeFloat d = some n) :
    n.Readable := by
  obtain ⟨x, hx, rfl⟩ := Option.map_eq_some_iff.1 h
  have := Binary64.ofRat_format (Binary64.representable_of_ofRat hx)
  simp [Number.Readable, Number.encode, decodeFloat, this]

theorem reread_int {g : ℤ} (hg : |g| ≤ 2 ^ 53) :
    reread (.number (.int g)) = some (.number (.float64 g)) := by
  simp [reread, traverse, Number.encode, decodeFloat, Binary64.ofRat_intCast hg]

theorem readable_int {g : ℤ} (hg : |g| ≤ 2 ^ 53) : (Value.number (.int g)).All Number.Readable := by
  simp [Value.All, Number.Readable, Number.encode, decodeFloat, Binary64.ofRat_intCast hg]

theorem reread_float64 {x : ℚ} (hx : Representable x) :
    reread (.number (.float64 x)) = some (.number (.float64 x)) := by
  simp [reread, traverse, Number.encode, decodeFloat, Binary64.ofRat_format hx]

/-- Members as a decoder leaves them : keys distinct, every number readable again. -/
structure Members.Decoded (ms : Members Number) : Prop where
  distinct : ms.Distinct
  readable : AllMembers Number.Readable ms

theorem Members.decoded_nil : Members.Decoded [] := ⟨List.nodup_nil, trivial⟩

theorem Members.Decoded.insert {ms : Members Number} (h : ms.Decoded) {v : Value Number}
    (hv : v.All Number.Readable) (k : String) : (Members.insert k v ms).Decoded where
  distinct := h.distinct.insert k v
  readable := ⟨hv, allMembers_iff.2 fun m hm =>
    allMembers_iff.1 h.readable m (List.mem_filter.1 hm).1⟩

variable {t : Text} {f : ν → Option μ} {v : Value ν} {w : Value μ}

section

variable {ms : Members Number} {f : Decimal → Option Number}

theorem exists_of_unmarshalMap
    (h : unmarshalMap f t = some (some ms)) : ∃ doc ws, t = .document (.object doc) ∧
      traverseMembers f Members.lastWins doc = some ws ∧ Members.lastWins ws = ms := by
  rcases t with _ | _ | v
  · simp [unmarshalMap] at h
  · simp [unmarshalMap] at h
  · cases v with
    | object doc => exact ⟨doc, by simpa [unmarshalMap] using h⟩
    | _ => simp [unmarshalMap] at h

theorem decoded_of_unmarshalMap (h : unmarshalMap decodeFloat t = some (some ms)) : ms.Decoded := by
  obtain ⟨doc, ws, rfl, hws, rfl⟩ := exists_of_unmarshalMap h
  have hall : AllMembers Number.Readable ws :=
    (all_traversal (p := fun _ => True) (fun _ _ => Members.mem_of_mem_lastWins)
      fun _ _ _ => Number.readable_of_decodeFloat).entries hws
      (allMembers_of_forall (fun _ => trivial) doc)
  exact ⟨Members.distinct_lastWins ws, allMembers_iff.2 fun m hm =>
    allMembers_iff.1 hall m (Members.mem_of_mem_lastWins hm)⟩

theorem Members.lookup_eq_none_iff : ∀ {ms : Members ν}, ms.lookup k = none ↔ k ∉ ms.map Prod.fst
  | [] => by simp
  | (k', v) :: ms => by
    rw [lookup_member, List.map_cons, List.mem_cons, not_or, ← lookup_eq_none_iff]
    split_ifs with h <;> simp [h]

/-- A key the decoded map lacks is not in the document either. -/
theorem member_eq_none_of_unmarshalMap {m : Option (Members Number)} (h : unmarshalMap f t = some m)
    (hk : (m.getD []).lookup k = none) : t.member k = none := by
  rcases t with _ | _ | v
  · rfl
  · rfl
  · cases v with
    | object =>
      obtain ⟨_, hws, rfl⟩ := Option.map_eq_some_iff.1 h
      rw [Option.getD_some, Members.lookup_lastWins, Members.lookup_eq_none_iff, List.map_reverse,
        keys_traverseMembers hws] at hk
      rwa [Text.member, Members.lookup_lastWins, Members.lookup_eq_none_iff, List.map_reverse]
    | _ => rfl

/-- What a decoded map holds under a key. -/
theorem lookup_of_unmarshalMap (h : unmarshalMap f t = some (some ms)) (k : String) :
    ms.lookup k = (t.member k).bind (traverse f Members.lastWins) := by
  obtain ⟨_, _, rfl, hws, rfl⟩ := exists_of_unmarshalMap h
  rw [Text.member, Members.lookup_lastWins, Members.lookup_lastWins,
    lookup_traverseMembers k (traverseMembers_reverse hws)]

theorem distinct_of_unmarshalMap (h : unmarshalMap f t = some (some ms)) : ms.Distinct := by
  obtain ⟨-, ws, -, -, rfl⟩ := exists_of_unmarshalMap h
  exact Members.distinct_lastWins ws

/-- A written map has its members, as they are encoded. -/
theorem exists_of_marshal (h : ms.Distinct) (ht : marshal (.object ms) = some t) :
    ∃ ws : Members Decimal, t = .document (.object ws) ∧ ws.Distinct ∧
      ∀ k, ws.lookup k = (ms.lookup k).bind encode := by
  obtain ⟨ws, hws, rfl⟩ : ∃ ws, traverseMembers Number.encode Members.sortKeys ms = some ws ∧
      Text.document (.object (Members.sortKeys ws)) = t := by simpa [marshal, traverse] using ht
  have hdw := (distinct_traverseMembers h hws).sortKeys
  exact ⟨_, rfl, hdw, fun k => (Members.lookup_eq_of_perm hdw (Members.perm_sortKeys ws) k).trans
    (lookup_traverseMembers k hws)⟩

/-- What a written object holds under a key. -/
theorem member_marshal (h : ms.Distinct) (ht : marshal (.object ms) = some t) (k : String) :
    t.member k = (ms.lookup k).bind encode := by
  obtain ⟨ws, rfl, hdw, hlookup⟩ := exists_of_marshal h ht
  rw [Text.member, hdw.lookup_lastWins, hlookup]

theorem asString_traverse {ν μ : Type} (f : ν → Option μ) (norm : Members μ → Members μ)
    (v : Value ν) : (traverse f norm v).elim "" Value.asString = v.asString := by
  cases v with
  | number n => cases h : f n <;> simp [traverse, h, Value.asString]
  | array vs => cases h : traverseItems f norm vs <;> simp [traverse, h, Value.asString]
  | object ms => cases h : traverseMembers f norm ms <;> simp [traverse, h, Value.asString]
  | _ => rfl

/-- Writing a map keeps its strings. -/
theorem string_marshal (h : ms.Distinct)
    (ht : marshal (.object ms) = some t) (k : String) : t.string k = ms.string k := by
  unfold Text.string Members.string
  rw [member_marshal h ht]
  cases ms.lookup k with
  | none => rfl
  | some v => exact asString_traverse _ _ v

/-- Decoding a map keeps its strings. -/
theorem string_of_unmarshalMap
    (h : unmarshalMap f t = some (some ms)) (k : String) : ms.string k = t.string k := by
  unfold Text.string Members.string
  rw [lookup_of_unmarshalMap h]
  cases t.member k with
  | none => rfl
  | some v => exact asString_traverse _ _ v

theorem isSome_traverseMembers_iff {f : ν → Option μ} {norm : Members μ → Members μ}
    {ms : Members ν} :
    (traverseMembers f norm ms).isSome ↔ ∀ m ∈ ms, (traverse f norm m.2).isSome := by
  induction ms with
  | nil => simp [traverseMembers]
  | cons m ms ih =>
    rw [List.forall_mem_cons, ← ih]
    rcases h : traverse f norm m.2 with _ | w
    · simp [traverseMembers, h]
    · rcases hs : traverseMembers f norm ms with _ | ws
      · simp [traverseMembers, h, hs]
      · simp [traverseMembers, h, hs]

/-- A written value can be read again if its numbers can. -/
theorem isSome_reread {v : Value Number} (h : v.All Number.Readable) : (reread v).isSome := by
  obtain ⟨w, hw⟩ := Option.isSome_iff_exists.1 (isSome_traverse (f := Number.encode)
    (Value.all_of_forall Number.isSome_encode v))
  have hread : w.All (fun d => (decodeFloat d).isSome) :=
    (all_traversal (fun _ _ => (Members.perm_sortKeys _).mem_iff.1)
      fun n d (hn : n.Readable) hd => by simpa [Number.Readable, hd] using hn).value hw h
  rw [reread, encode, hw]
  exact isSome_traverse hread

/-- A written map can be read again exactly if each of its members can, and it then has the same
members, each as `reread` leaves it. -/
theorem unmarshalMap_marshal_iff (h : ms.Distinct) : ∃ t, marshal (.object ms) = some t ∧
      ((∃ m ∈ ms, reread m.2 = none) → unmarshalMap decodeFloat t = none) ∧
      ((∀ m ∈ ms, (reread m.2).isSome) → ∃ ms', unmarshalMap decodeFloat t = some (some ms') ∧
        ∀ k, ms'.lookup k = (ms.lookup k).bind reread) := by
  obtain ⟨ws, hws⟩ : ∃ ws, traverseMembers Number.encode Members.sortKeys ms = some ws :=
    Option.isSome_iff_exists.1
      (isSome_traverseMembers (allMembers_of_forall Number.isSome_encode ms))
  have hmem : (∀ m ∈ Members.sortKeys ws, (traverse decodeFloat Members.lastWins m.2).isSome) ↔
      ∀ m ∈ ms, (reread m.2).isSome := by
    have hsort : (∀ m ∈ Members.sortKeys ws, (traverse decodeFloat Members.lastWins m.2).isSome) ↔
        ∀ m ∈ ws, (traverse decodeFloat Members.lastWins m.2).isSome :=
      forall_congr' fun m => by rw [(Members.perm_sortKeys ws).mem_iff]
    rw [hsort]
    clear hsort h
    induction ms generalizing ws with
    | nil =>
      cases hws
      simp
    | cons m ms ih =>
      obtain ⟨w, hw, _, hws', rfl⟩ := traverseMembers_cons.1 hws
      rw [List.forall_mem_cons, List.forall_mem_cons]
      refine and_congr ?_ (ih _ hws')
      rw [reread, encode, hw]
      rfl
  refine ⟨.document (.object (Members.sortKeys ws)), by simp [marshal, traverse, hws], ?_, ?_⟩
  · rintro ⟨m, hm, hnone⟩
    rw [unmarshalMap, Option.map_eq_none_iff, ← Option.not_isSome_iff_eq_none,
      isSome_traverseMembers_iff, hmem]
    intro hall
    simpa [hnone] using hall m hm
  · intro hall
    obtain ⟨vs, hvs⟩ := Option.isSome_iff_exists.1
      (isSome_traverseMembers_iff.2 (hmem.2 hall))
    refine ⟨Members.lastWins vs, by simp [unmarshalMap, hvs], fun k => ?_⟩
    have hds := (distinct_traverseMembers h hws).sortKeys
    calc (Members.lastWins vs).lookup k
        = vs.lookup k := (distinct_traverseMembers hds hvs).lookup_lastWins k
      _ = ((Members.sortKeys ws).lookup k).bind (traverse decodeFloat Members.lastWins) :=
          lookup_traverseMembers k hvs
      _ = (ws.lookup k).bind (traverse decodeFloat Members.lastWins) := by
          rw [Members.lookup_eq_of_perm hds (Members.perm_sortKeys ws)]
      _ = (ms.lookup k).bind reread := by
          rw [lookup_traverseMembers k hws, Option.bind_assoc]
          rfl

end

/-! ## Comparison of decoded values -/

/-- Numbers in memory are equal; two literals are if they denote the same number. -/
def Number.equal : Number → Number → Bool
  | .literal a, .literal b => a.toRat = b.toRat
  | m, n => m = n

mutual

/-- Two trees are equal, whatever the order of members, with numbers compared by `eq`. -/
def Value.equalWith (eq : ν → μ → Bool) : Value ν → Value μ → Bool
  | .null, .null => true
  | .bool a, .bool b => a = b
  | .number a, .number b => eq a b
  | .string a, .string b => a = b
  | .array as, .array bs => equalItems eq as bs
  | .object as, .object bs => as.length = bs.length && equalMembers eq as bs
  | _, _ => false

def equalItems (eq : ν → μ → Bool) : List (Value ν) → List (Value μ) → Bool
  | [], [] => true
  | a :: as, b :: bs => a.equalWith eq b && equalItems eq as bs
  | _, _ => false

def equalMembers (eq : ν → μ → Bool) :
    List (String × Value ν) → List (String × Value μ) → Bool
  | [], _ => true
  | (k, a) :: as, bs =>
    (match bs.lookup k with
      | some b => a.equalWith eq b
      | none => false) && equalMembers eq as bs

end

/-- Values in memory are equal. -/
def Value.equal : Value Number → Value Number → Bool := Value.equalWith Number.equal

theorem equalMembers_perm {eq : ν → μ → Bool} {as as' : Members ν} (h : as.Perm as')
    (bs : Members μ) : equalMembers eq as bs = equalMembers eq as' bs := by
  induction h with
  | nil => rfl
  | cons m _ ih =>
    obtain ⟨k, a⟩ := m
    simp [equalMembers, ih]
  | swap m m' as =>
    obtain ⟨k, a⟩ := m
    obtain ⟨_, _⟩ := m'
    simp [equalMembers, Bool.and_left_comm]
  | trans _ _ ih ih' => exact ih.trans ih'

section EqualTraverse

variable {ξ : Type} {norm : Members μ → Members μ} {eq : ν → ξ → Bool}
  {eq' : μ → ξ → Bool} (hnorm : ∀ ms, (norm ms).Perm ms)
  (heq : ∀ {n m}, f n = some m → eq' m = eq n)

include hnorm heq

/-- Comparison after a traversal that rearranges members and converts numbers in a way that
the comparison does not see. -/
theorem equal_traversal : Traversal f norm
    (fun v w => ∀ x : Value ξ, w.equalWith eq' x = v.equalWith eq x)
    (fun vs ws => ∀ xs, equalItems eq' ws xs = equalItems eq vs xs)
    (fun ms ws => ∀ xs, equalMembers eq' ws xs = equalMembers eq ms xs) where
  null x := by cases x <;> rfl
  bool _ x := by cases x <;> rfl
  number hm x := by cases x <;> simp [Value.equalWith, heq hm]
  string _ x := by cases x <;> rfl
  array hitems x := by cases x <;> simp [Value.equalWith, hitems]
  object {ms ws} hws hmembers x := by
    have hlength : (norm ws).length = ms.length := by
      rw [(hnorm ws).length_eq, ← List.length_map Prod.fst, keys_traverseMembers hws,
        List.length_map]
    cases x <;> simp [Value.equalWith, hlength, equalMembers_perm (hnorm ws), hmembers]
  nil xs := by cases xs <;> rfl
  cons hv hvs xs := by
    cases xs with
    | nil => rfl
    | cons => simp [equalItems, hv, hvs]
  noMembers _ := rfl
  member hv hms xs := by simp [equalMembers, hv, hms]

theorem equalWith_traverse {v : Value ν} {w : Value μ} (h : traverse f norm v = some w)
    (x : Value ξ) : w.equalWith eq' x = v.equalWith eq x :=
  (equal_traversal hnorm heq).value h x

end EqualTraverse

mutual

/-- Every object of a tree has distinct keys. -/
def Value.Keyed : Value ν → Prop
  | .array vs => KeyedItems vs
  | .object ms => Members.Distinct ms ∧ KeyedMembers ms
  | _ => True

def KeyedItems : List (Value ν) → Prop
  | [] => True
  | v :: vs => v.Keyed ∧ KeyedItems vs

def KeyedMembers : List (String × Value ν) → Prop
  | [] => True
  | (_, v) :: ms => v.Keyed ∧ KeyedMembers ms

end

theorem keyedMembers_iff : ∀ {ms : Members ν}, KeyedMembers ms ↔ ∀ m ∈ ms, m.2.Keyed
  | [] => by simp [KeyedMembers]
  | m :: ms => by
    simp [KeyedMembers, keyedMembers_iff]

/-- Decoding leaves distinct keys everywhere. -/
theorem keyed_traverse (h : traverse f Members.lastWins v = some w) : w.Keyed := by
  have hkeyed : Traversal f Members.lastWins (fun _ w => w.Keyed) (fun _ ws => KeyedItems ws)
      (fun _ ws => KeyedMembers ws) :=
    { null := trivial
      bool := fun _ => trivial
      number := fun _ => trivial
      string := fun _ => trivial
      array := id
      object := fun _ hws => ⟨Members.distinct_lastWins _, keyedMembers_iff.2 fun m hm =>
        keyedMembers_iff.1 hws m (Members.mem_of_mem_lastWins hm)⟩
      nil := trivial
      cons := And.intro
      noMembers := trivial
      member := And.intro }
  exact hkeyed.value h

mutual

theorem Value.equal_self : ∀ {v : Value Number}, v.Keyed → v.equal v
  | .null, _ => rfl
  | .bool _, _ => by simp [Value.equal, Value.equalWith]
  | .number n, _ => by cases n <;> simp [Value.equal, Value.equalWith, Number.equal]
  | .string _, _ => by simp [Value.equal, Value.equalWith]
  | .array vs, h => equalItems_self h
  | .object ms, h => by
    rw [Value.equal, Value.equalWith, Bool.and_eq_true]
    exact ⟨by simp, equalMembers_self h.2 fun m hm => (Members.lookup_eq_some_iff h.1).2 hm⟩

theorem equalItems_self : ∀ {vs : List (Value Number)}, KeyedItems vs →
    equalItems Number.equal vs vs
  | [], _ => rfl
  | v :: vs, h => by
    rw [equalItems, Bool.and_eq_true]
    exact ⟨Value.equal_self h.1, equalItems_self h.2⟩

theorem equalMembers_self : ∀ {as bs : List (String × Value Number)}, KeyedMembers as →
    (∀ m ∈ as, bs.lookup m.1 = some m.2) → equalMembers Number.equal as bs
  | [], _, _, _ => rfl
  | (k, a) :: as, bs, h, hsub => by
    have hk : bs.lookup k = some a := hsub (k, a) List.mem_cons_self
    rw [equalMembers, hk, Bool.and_eq_true]
    exact ⟨Value.equal_self h.1, equalMembers_self h.2 fun m hm => hsub m (List.mem_cons_of_mem _ hm)⟩

end

/-- Decode a whole document, numbers kept as literals. -/
def unmarshalNumber : Text → Option (Value Number)
  | .document v => traverse decodeNumber Members.lastWins v
  | _ => none

/-- Two texts hold equal documents; a text that holds none equals nothing. -/
def deepEqual (a b : Text) : Bool :=
  match unmarshalNumber a, unmarshalNumber b with
  | some v, some w => v.equal w
  | _, _ => false

theorem deepEqual_self (v : Value Decimal) : deepEqual (.document v) (.document v) := by
  obtain ⟨w, hw⟩ : ∃ w, traverse decodeNumber Members.lastWins v = some w :=
    Option.isSome_iff_exists.1 (isSome_traverse (Value.all_of_forall (fun _ => rfl) v))
  simp only [deepEqual, unmarshalNumber, hw]
  exact Value.equal_self (keyed_traverse hw)

/-! ## Documents as they are written -/

namespace Members

/-- The keys come in order, each once. -/
def Ordered (ms : Members ν) : Prop := ms.Pairwise fun a b => a.1 < b.1

theorem Ordered.distinct (h : ms.Ordered) : ms.Distinct :=
  List.pairwise_map.2 (h.imp fun hlt => hlt.ne)

theorem lastWins_of_distinct (h : ms.Distinct) : lastWins ms = ms.reverse := by
  have hrev : Distinct ms.reverse := by rwa [Distinct, List.map_reverse, List.nodup_reverse]
  unfold lastWins
  generalize ms.reverse = ms' at hrev
  induction ms' with
  | nil => rfl
  | cons m ms' ih =>
    obtain ⟨hm, hms'⟩ := List.nodup_cons.1 hrev
    have hkept : erase m.1 ms' = ms' := by
      refine List.filter_eq_self.2 fun m' hm' => ?_
      have hne : m'.1 ≠ m.1 := fun heq => hm (heq ▸ List.mem_map_of_mem hm')
      simpa using hne
    calc override [] (m :: ms') = insert m.1 m.2 (override [] ms') := rfl
      _ = m :: ms' := by rw [ih hms', insert, hkept]

theorem ordered_sortKeys (h : ms.Distinct) : (sortKeys ms).Ordered := by
  have hsorted : (sortKeys ms).Pairwise fun a b => a.1 ≤ b.1 :=
    List.pairwise_insertionSort (fun a b : String × Value ν => a.1 ≤ b.1) ms
  exact hsorted.imp₂ (fun _ _ hle hne => lt_of_le_of_ne hle hne) (List.pairwise_map.1 h.sortKeys)

/-- Sorting finds the order again. -/
theorem sortKeys_of_perm {ms ms' : Members ν} (h : ms.Ordered) (hp : ms'.Perm ms) :
    sortKeys ms' = ms := by
  have hdistinct : ms'.Distinct := (hp.map Prod.fst).nodup_iff.2 h.distinct
  refine List.Perm.eq_of_pairwise (fun a b _ _ hab hba => absurd hba (lt_asymm hab))
    (ordered_sortKeys hdistinct) h ((perm_sortKeys ms').trans hp)

end Members

mutual

/-- Every object of a tree has its keys in order, each once. -/
def Value.Canonical : Value ν → Prop
  | .array vs => CanonicalItems vs
  | .object ms => Members.Ordered ms ∧ CanonicalMembers ms
  | _ => True

def CanonicalItems : List (Value ν) → Prop
  | [] => True
  | v :: vs => v.Canonical ∧ CanonicalItems vs

def CanonicalMembers : List (String × Value ν) → Prop
  | [] => True
  | (_, v) :: ms => v.Canonical ∧ CanonicalMembers ms

end

theorem canonicalMembers_iff : ∀ {ms : Members ν}, CanonicalMembers ms ↔ ∀ m ∈ ms, m.2.Canonical
  | [] => by simp [CanonicalMembers]
  | m :: ms => by
    simp [CanonicalMembers, canonicalMembers_iff]

/-- A map in memory is written in canonical form. -/
theorem canonical_encode {v : Value Number} {w : Value Decimal} (hv : v.Keyed)
    (h : encode v = some w) : w.Canonical := by
  have hcanonical : Traversal Number.encode Members.sortKeys (fun v w => v.Keyed → w.Canonical)
      (fun vs ws => KeyedItems vs → CanonicalItems ws)
      (fun ms ws => KeyedMembers ms → CanonicalMembers ws) :=
    { null := fun _ => trivial
      bool := fun _ _ => trivial
      number := fun _ _ => trivial
      string := fun _ _ => trivial
      array := id
      object := fun {ms ws} hws hmembers hv => by
        have hall := canonicalMembers_iff.1 (hmembers hv.2)
        exact ⟨Members.ordered_sortKeys (distinct_traverseMembers hv.1 hws), canonicalMembers_iff.2 fun m hm =>
          hall m ((Members.perm_sortKeys ws).mem_iff.1 hm)⟩
      nil := id
      cons := fun hv hvs h => ⟨hv h.1, hvs h.2⟩
      noMembers := id
      member := fun hv hms h => ⟨hv h.1, hms h.2⟩ }
  exact hcanonical.value h hv

/-- A document in canonical form is read and written as it was if its numbers are. -/
theorem traverse_sortKeys_lastWins {g : μ → Option ν}
    (hg : ∀ n m, f n = some m → g m = some n) (hv : v.Canonical)
    (h : traverse f Members.lastWins v = some w) : traverse g Members.sortKeys w = some v := by
  have hback : Traversal f Members.lastWins
      (fun v w => v.Canonical → traverse g Members.sortKeys w = some v)
      (fun vs ws => CanonicalItems vs → traverseItems g Members.sortKeys ws = some vs)
      (fun ms ws => CanonicalMembers ms → traverseMembers g Members.sortKeys ws = some ms) :=
    { null := fun _ => rfl
      bool := fun _ _ => rfl
      number := fun hm _ => by rw [traverse, hg _ _ hm]; rfl
      string := fun _ _ => rfl
      array := fun hitems hv => by rw [traverse, hitems hv]; rfl
      object := fun {ms ws} hws hmembers hv => by
        rw [traverse, Members.lastWins_of_distinct (distinct_traverseMembers hv.1.distinct hws),
          traverseMembers_reverse (hmembers hv.2), Option.map_some,
          Members.sortKeys_of_perm hv.1 (List.reverse_perm ms)]
      nil := fun _ => rfl
      cons := fun hv hvs h => by rw [traverseItems, hv h.1, hvs h.2]; rfl
      noMembers := fun _ => rfl
      member := fun hv hms h => traverseMembers_cons.2 ⟨_, hv h.1, _, hms h.2, rfl⟩ }
  exact hback.value h hv

/-- A document in canonical form is read, numbers kept as literals, and written as it was. -/
theorem encode_decode {v : Value Decimal} {w : Value Number} (hv : v.Canonical)
    (h : traverse decodeNumber Members.lastWins v = some w) : encode w = some v :=
  traverse_sortKeys_lastWins (fun _ _ hn => Option.some.inj hn ▸ rfl) hv h

end Json
