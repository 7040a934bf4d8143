import Runkite.Json

/-!
# JSON objects decoded into records

`encoding/json` decodes an object into a struct member by member, in the order of the document. A
member goes to the field whose name its key equals up to case; other members are skipped, and `null`
leaves a field as it is. A value that does not fit its field makes the decoding fail, and a later
member overwrites an earlier one, except that a nested struct is filled further.

`decodeStruct_invariant` : what every field keeps, the decoding keeps.
-/

namespace Json

/-- The least rune that equals `c` up to case, among those that equal an ASCII letter. -/
def foldRune (c : Char) : Char :=
  if c = '\u017f' then 'S' else if c = '\u212a' then 'K' else c.toUpper

def foldName (name : String) : List Char := name.toList.map foldRune

/-- A field of a record `σ`, and how a value that is not `null` is stored in it. -/
structure StructField (ν σ : Type) where
  name : String
  store : Value ν → σ → Option σ

variable {ν σ τ : Type}

/-- The field that a key selects. The exact name, which the package tries first, selects the same
one, since no two names of a record differ by case alone. -/
def selectField (fields : List (StructField ν σ)) (key : String) : Option (StructField ν σ) :=
  fields.find? fun f => foldName f.name = foldName key

def storeMember (fields : List (StructField ν σ)) (s : σ) (m : String × Value ν) : Option σ :=
  match m.2 with
  | .null => some s
  | v => (selectField fields m.1).elim (some s) fun f => f.store v s

/-- Decode a value into a record that holds `s` so far. -/
def decodeStruct (fields : List (StructField ν σ)) (v : Value ν) (s : σ) : Option σ :=
  match v with
  | .null => some s
  | .object ms => ms.foldlM (storeMember fields) s
  | _ => none

/-! ## Invariants -/

section

variable {fields : List (StructField ν σ)} {Inv : σ → Prop}
  (h : ∀ f ∈ fields, ∀ v s t, f.store v s = some t → Inv s → Inv t)
include h

/-- What each field keeps, a member keeps. -/
theorem storeMember_invariant {s t : σ}
    {m : String × Value ν} (hstore : storeMember fields s m = some t) (hs : Inv s) : Inv t := by
  obtain ⟨k, v⟩ := m
  have hselected : ∀ w, (selectField fields k).elim (some s) (fun f => f.store w s) = some t →
      Inv t := by
    intro w hw
    cases hf : selectField fields k with
    | none =>
      rw [hf] at hw
      exact Option.some.inj hw ▸ hs
    | some f =>
      rw [hf] at hw
      exact h f (List.mem_of_find?_eq_some hf) w s t hw hs
  cases v with
  | null => exact Option.some.inj hstore ▸ hs
  | _ => exact hselected _ hstore

theorem decodeStruct_invariant {v : Value ν} {s t : σ}
    (hdecode : decodeStruct fields v s = some t) (hs : Inv s) : Inv t := by
  cases v with
  | null => exact Option.some.inj hdecode ▸ hs
  | object ms =>
    simp only [decodeStruct] at hdecode
    induction ms generalizing s with
    | nil => exact Option.some.inj hdecode ▸ hs
    | cons m ms ih =>
      rw [List.foldlM_cons] at hdecode
      obtain ⟨_, hs', hrest⟩ := Option.bind_eq_some_iff.1 hdecode
      exact ih (storeMember_invariant h hs' hs) hrest
  | _ => cases hdecode

end

/-! ## Pairs -/

/-- Both results, or none. -/
def both (o : Option σ) (o' : Option τ) : Option (σ × τ) :=
  o.bind fun s => o'.map fun t => (s, t)

/-- The members of a pair are stored side by side. -/
def Splits (pairs : List (StructField ν (σ × τ))) (left : List (StructField ν σ))
    (right : List (StructField ν τ)) : Prop :=
  ∀ s t m, storeMember pairs (s, t) m = both (storeMember left s m) (storeMember right t m)

theorem decodeStruct_splits {pairs : List (StructField ν (σ × τ))} {left : List (StructField ν σ)}
    {right : List (StructField ν τ)} (h : Splits pairs left right) (v : Value ν) (s : σ) (t : τ) :
    decodeStruct pairs v (s, t) = both (decodeStruct left v s) (decodeStruct right v t) := by
  cases v with
  | null => rfl
  | object ms =>
    simp only [decodeStruct]
    induction ms generalizing s t with
    | nil => rfl
    | cons m ms ih =>
      rw [List.foldlM_cons, List.foldlM_cons, List.foldlM_cons, h s t m]
      cases storeMember left s m with
      | none => rfl
      | some s' =>
        cases storeMember right t m with
        | none => cases ms.foldlM (storeMember left) s' <;> simp [both, *]
        | some t' => exact ih s' t'
  | _ => rfl

/-- A field of the left side. -/
def StructField.left (f : StructField ν σ) : StructField ν (σ × τ) :=
  ⟨f.name, fun v p => (f.store v p.1).map fun s => (s, p.2)⟩

/-- A field of the right side. -/
def StructField.right (f : StructField ν τ) : StructField ν (σ × τ) :=
  ⟨f.name, fun v p => (f.store v p.2).map fun t => (p.1, t)⟩

/-- The fields of a struct that embeds another one. -/
def embed (left : List (StructField ν σ)) (right : List (StructField ν τ)) :
    List (StructField ν (σ × τ)) :=
  left.map StructField.left ++ right.map StructField.right

theorem selectField_embed (left : List (StructField ν σ)) (right : List (StructField ν τ))
    (k : String) : selectField (embed left right) k =
      ((selectField left k).map StructField.left).or ((selectField right k).map StructField.right) := by
  unfold selectField embed
  rw [List.find?_append, List.find?_map, List.find?_map]
  rfl

/-- The names of the two structs differ, so a key selects a field of one at most. -/
theorem splits_embed {left : List (StructField ν σ)} {right : List (StructField ν τ)}
    (h : ∀ f ∈ left, ∀ g ∈ right, foldName f.name ≠ foldName g.name) :
    Splits (embed left right) left right := by
  rintro s t ⟨k, v⟩
  have hselected : ∀ w,
      (selectField (embed left right) k).elim (some (s, t)) (fun f => f.store w (s, t)) =
        both ((selectField left k).elim (some s) fun f => f.store w s)
          ((selectField right k).elim (some t) fun f => f.store w t) := by
    intro w
    rw [selectField_embed]
    cases hl : selectField left k with
    | none =>
      cases hr : selectField right k with
      | none => rfl
      | some g => cases hg : g.store w t <;> simp [StructField.right, both, hg]
    | some f =>
      cases hr : selectField right k with
      | none => cases hf : f.store w s <;> simp [StructField.left, both, hf]
      | some g =>
        have hf : foldName f.name = foldName k := by simpa using List.find?_some hl
        have hg : foldName g.name = foldName k := by simpa using List.find?_some hr
        exact absurd (hf.trans hg.symm)
          (h f (List.mem_of_find?_eq_some hl) g (List.mem_of_find?_eq_some hr))
  cases v with
  | null => rfl
  | _ => exact hselected _

theorem splits_singleton {f : StructField ν (σ × τ)} {left : StructField ν σ} {right : StructField ν τ}
    (hleft : left.name = f.name) (hright : right.name = f.name)
    (h : ∀ v s t, f.store v (s, t) = both (left.store v s) (right.store v t)) :
    Splits [f] [left] [right] := by
  rintro s t ⟨k, v⟩
  have hselected : ∀ w,
      (selectField [f] k).elim (some (s, t)) (fun f => f.store w (s, t)) =
        both ((selectField [left] k).elim (some s) fun f => f.store w s)
          ((selectField [right] k).elim (some t) fun f => f.store w t) := by
    intro w
    simp only [selectField, List.find?_singleton, hleft, hright]
    split_ifs
    · exact h w s t
    · rfl
  cases v with
  | null => rfl
  | _ => exact hselected _

end Json
