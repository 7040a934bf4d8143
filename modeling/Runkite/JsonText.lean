import Runkite.Json
import Runkite.SelfDelimiting

/-!
# JSON trees as text

`render` prints a tree as `encoding/json` does : without blanks, with the escapes of that package
(`quote`), and with the numbers as they are given. The text of a tree determines the tree
(`render_injective`) if the texts of its numbers do.

`normalize` converts the numbers of a tree and sorts its members. Trees are equal up to the order of
members if and only if they have the same normal form (`equalWith_iff_normalize`).
-/

set_option linter.unusedSectionVars false

open SelfDelimiting (Code Stops code_of_decode stops_cons)

namespace Json

/-! ## Strings -/

/-- The letter of a short escape. -/
def shortEscape (c : Char) : Option Char :=
  if c = '"' then some '"'
  else if c = '\\' then some '\\'
  else if c = '\x08' then some 'b'
  else if c = '\x0c' then some 'f'
  else if c = '\n' then some 'n'
  else if c = '\r' then some 'r'
  else if c = '\t' then some 't'
  else none

/-- Control characters, what HTML reads, and two line separators. -/
def escaped (c : Char) : Bool :=
  c.toNat < 0x20 || c = '<' || c = '>' || c = '&' || c.toNat = 0x2028 || c.toNat = 0x2029

def hexDigit (n : ℕ) : Char := if n < 10 then Char.ofNat (48 + n) else Char.ofNat (87 + n)

def escapeRune (c : Char) : List Char :=
  match shortEscape c with
  | some k => ['\\', k]
  | none =>
    if escaped c then
      ['\\', 'u', hexDigit (c.toNat / 4096 % 16), hexDigit (c.toNat / 256 % 16),
        hexDigit (c.toNat / 16 % 16), hexDigit (c.toNat % 16)]
    else [c]

def quote (s : String) : List Char := '"' :: (s.toList.flatMap escapeRune ++ ['"'])

def hexValue (c : Char) : ℕ := if c.toNat < 58 then c.toNat - 48 else c.toNat - 87

/-- The rune of a short escape. -/
def shortRune (k : Char) : Option Char :=
  if k = '"' then some '"'
  else if k = '\\' then some '\\'
  else if k = 'b' then some '\x08'
  else if k = 'f' then some '\x0c'
  else if k = 'n' then some '\n'
  else if k = 'r' then some '\r'
  else if k = 't' then some '\t'
  else none

/-- The first rune of an escaped text, and what comes after it. -/
def unescape : List Char → Option (Char × List Char)
  | [] => none
  | c :: s =>
    if c ≠ '\\' then some (c, s)
    else
      match s with
      | [] => none
      | k :: s =>
        if k = 'u' then
          match s with
          | x :: y :: z :: w :: s =>
            some (Char.ofNat (4096 * hexValue x + 256 * hexValue y + 16 * hexValue z + hexValue w), s)
          | _ => none
        else (shortRune k).map fun c => (c, s)

theorem hexValue_hexDigit : ∀ {n : ℕ}, n < 16 → hexValue (hexDigit n) = n := by decide

theorem shortRune_shortEscape {c k : Char} (h : shortEscape c = some k) :
    shortRune k = some c ∧ k ≠ 'u' := by
  unfold shortEscape at h
  split_ifs at h with h₁ h₂ h₃ h₄ h₅ h₆ h₇ <;> obtain rfl := Option.some.inj h <;>
    subst_vars <;> decide

theorem toNat_lt_of_escaped {c : Char} (h : escaped c) : c.toNat < 65536 := by
  simp only [escaped, Bool.or_eq_true, decide_eq_true_eq] at h
  rcases h with ((((h | rfl) | rfl) | rfl) | h) | h
  · omega
  · decide
  · decide
  · decide
  · omega
  · omega

theorem unescape_escapeRune (c : Char) (s : List Char) : unescape (escapeRune c ++ s) = some (c, s) := by
  unfold escapeRune
  cases hshort : shortEscape c with
  | some =>
    obtain ⟨hrune, hk⟩ := shortRune_shortEscape hshort
    simp [unescape, hk, hrune]
  | none =>
    have hc : c ≠ '\\' := by
      rintro rfl
      cases hshort
    split_ifs with hescaped
    · have hlt := toNat_lt_of_escaped hescaped
      have hnat : 4096 * (c.toNat / 4096 % 16) + 256 * (c.toNat / 256 % 16) +
          16 * (c.toNat / 16 % 16) + c.toNat % 16 = c.toNat := by omega
      simp only [unescape, List.cons_append, List.nil_append, ne_eq, not_true_eq_false, if_false,
        if_true, hexValue_hexDigit (Nat.mod_lt _ (by decide)), hnat, Char.ofNat_toNat]
    · simp [unescape, hc]

theorem code_escapeRune : Code escapeRune := code_of_decode unescape unescape_escapeRune

/-- No rune is written as a quotation mark alone. -/
theorem escapeRune_ne_quote (c : Char) (s t : List Char) : escapeRune c ++ s ≠ '"' :: t := by
  intro heq
  unfold escapeRune at heq
  cases hshort : shortEscape c with
  | some => simp [hshort] at heq
  | none =>
    rw [hshort] at heq
    split_ifs at heq
    · simp at heq
    · obtain ⟨rfl, -⟩ := List.cons.inj heq
      cases hshort

theorem code_quote : Code quote := by
  intro a b s t heq
  simp only [quote, List.cons_append, List.append_assoc, List.nil_append, List.cons.injEq,
    true_and] at heq
  obtain ⟨hab, hst⟩ := code_escapeRune.flatMap_close escapeRune_ne_quote _ _ _ _ heq
  exact ⟨String.toList_injective hab, hst⟩

/-! ## Trees -/

variable {ν μ : Type}

mutual

/-- A tree as text, with the texts of its numbers. -/
def render (number : ν → List Char) : Value ν → List Char
  | .null => ['n', 'u', 'l', 'l']
  | .bool true => ['t', 'r', 'u', 'e']
  | .bool false => ['f', 'a', 'l', 's', 'e']
  | .number n => number n
  | .string s => quote s
  | .array [] => ['[', ']']
  | .array (v :: vs) => '[' :: (render number v ++ renderItems number vs)
  | .object [] => ['{', '}']
  | .object ((k, v) :: ms) =>
    '{' :: (quote k ++ ':' :: (render number v ++ renderMembers number ms))

/-- The items after the first one. -/
def renderItems (number : ν → List Char) : List (Value ν) → List Char
  | [] => [']']
  | v :: vs => ',' :: (render number v ++ renderItems number vs)

/-- The members after the first one. -/
def renderMembers (number : ν → List Char) : List (String × Value ν) → List Char
  | [] => ['}']
  | (k, v) :: ms => ',' :: (quote k ++ ':' :: (render number v ++ renderMembers number ms))

end

/-- The letters of a number. -/
def Numeric (c : Char) : Prop := c.isDigit = true ∨ c = '-' ∨ c = 'e'

/-- Texts of numbers : they begin with a digit or a sign, and differ for different numbers. -/
structure NumberTexts (number : ν → List Char) : Prop where
  first : ∀ n, ∃ c s, number n = c :: s ∧ (c.isDigit = true ∨ c = '-')
  numeric : ∀ n, ∀ c ∈ number n, Numeric c
  injective : Function.Injective number

/-- What the first letter of a text says about the tree. -/
def kindOf (c : Char) : ℕ :=
  if c = 'n' then 0 else if c = 't' then 1 else if c = 'f' then 2 else if c = '"' then 3
  else if c = '[' then 4 else if c = '{' then 5 else if c = ']' then 7 else 6

def Value.kind : Value ν → ℕ
  | .null => 0
  | .bool true => 1
  | .bool false => 2
  | .string _ => 3
  | .array _ => 4
  | .object _ => 5
  | .number _ => 6

section Render

variable {number : ν → List Char} (h : NumberTexts number)
include h

theorem NumberTexts.kind_number (n : ν) : ∃ c s, number n = c :: s ∧ kindOf c = 6 := by
  obtain ⟨c, s, hn, hc⟩ := h.first n
  refine ⟨c, s, hn, ?_⟩
  have hne : ∀ k, k.isDigit = false → k ≠ '-' → c ≠ k := by
    rintro k hdigit hminus rfl
    rcases hc with hd | hm
    · rw [hd] at hdigit
      cases hdigit
    · exact hminus hm
  simp [kindOf, hne 'n' rfl (by decide), hne 't' rfl (by decide), hne 'f' rfl (by decide),
    hne '"' rfl (by decide), hne '[' rfl (by decide), hne '{' rfl (by decide),
    hne ']' rfl (by decide)]

theorem render_kind (v : Value ν) : ∃ c s, render number v = c :: s ∧ kindOf c = v.kind := by
  cases v with
  | null | string => exact ⟨_, _, rfl, rfl⟩
  | bool b => cases b <;> exact ⟨_, _, rfl, rfl⟩
  | number n => exact h.kind_number n
  | array vs => cases vs <;> exact ⟨_, _, by rw [render], rfl⟩
  | object ms =>
    cases ms with
    | nil | cons => exact ⟨_, _, by rw [render], rfl⟩

/-- Two trees of one constructor, which is one truth value for the truth values. -/
inductive SameKind : Value ν → Value ν → Prop where
  | null : SameKind .null .null
  | bool (b : Bool) : SameKind (.bool b) (.bool b)
  | number (n m : ν) : SameKind (.number n) (.number m)
  | string (a b : String) : SameKind (.string a) (.string b)
  | array (vs ws : List (Value ν)) : SameKind (.array vs) (.array ws)
  | object (ms ns : Members ν) : SameKind (.object ms) (.object ns)

theorem sameKind_of_render_append {v w : Value ν} {s t : List Char}
    (heq : render number v ++ s = render number w ++ t) : SameKind v w := by
  obtain ⟨c, _, hv, hkv⟩ := render_kind h v
  obtain ⟨d, _, hw, hkw⟩ := render_kind h w
  rw [hv, hw] at heq
  obtain ⟨rfl, -⟩ := List.cons.inj heq
  have hkind : v.kind = w.kind := hkv.symm.trans hkw
  rcases v with _ | (_ | _) | _ | _ | _ | _ <;> rcases w with _ | (_ | _) | _ | _ | _ | _ <;>
    first | constructor | cases hkind

/-- No tree begins with a closing bracket. -/
theorem render_append_ne (v : Value ν) (s t : List Char) : render number v ++ s ≠ ']' :: t := by
  intro heq
  obtain ⟨c, _, hv, hkind⟩ := render_kind h v
  rw [hv] at heq
  obtain ⟨rfl, -⟩ := List.cons.inj heq
  cases v with
  | bool b => cases b <;> cases hkind
  | _ => cases hkind

omit h in
theorem stops_renderItems (vs : List (Value ν)) (s : List Char) :
    Stops Numeric (renderItems number vs ++ s) := by
  cases vs <;> exact stops_cons _ (by simp [Numeric])

omit h in
theorem stops_renderMembers (ms : Members ν) (s : List Char) :
    Stops Numeric (renderMembers number ms ++ s) := by
  cases ms <;> exact stops_cons _ (by simp [Numeric])

mutual

/-- The text of a tree ends where the tree does. -/
theorem render_append_inj : ∀ {v w : Value ν} {s t : List Char}, Stops Numeric s →
    Stops Numeric t → render number v ++ s = render number w ++ t → v = w ∧ s = t
  | v, w, s, t, hs, ht, heq => by
    cases sameKind_of_render_append h heq with
    | null => exact ⟨rfl, by simpa [render] using heq⟩
    | bool b => cases b <;> exact ⟨rfl, by simpa [render] using heq⟩
    | number n m =>
      obtain ⟨hnm, hst⟩ := SelfDelimiting.eq_of_append_stops (h.numeric n) (h.numeric m) hs ht heq
      rw [h.injective hnm]
      exact ⟨rfl, hst⟩
    | string a b =>
      obtain ⟨rfl, hst⟩ := code_quote a b s t heq
      exact ⟨rfl, hst⟩
    | array vs ws =>
      rcases vs with _ | ⟨v, vs⟩ <;> rcases ws with _ | ⟨w, ws⟩ <;>
        simp only [render, List.cons_append, List.append_assoc, List.cons.injEq, true_and] at heq
      · exact ⟨rfl, by simpa using heq⟩
      · exact absurd heq.symm (render_append_ne h _ _ _)
      · exact absurd heq (render_append_ne h _ _ _)
      · obtain ⟨rfl, hrest⟩ := render_append_inj (stops_renderItems vs s)
          (stops_renderItems ws t) heq
        obtain ⟨rfl, hst⟩ := renderItems_append_inj hs ht hrest
        exact ⟨rfl, hst⟩
    | object ms ns =>
      rcases ms with _ | ⟨⟨k, v⟩, ms⟩ <;> rcases ns with _ | ⟨⟨k', w⟩, ns⟩
      · exact ⟨rfl, by simpa [render] using heq⟩
      · simp [render, quote] at heq
      · simp [render, quote] at heq
      · simp only [render, List.cons_append, List.append_assoc, List.cons.injEq, true_and] at heq
        obtain ⟨rfl, hmember⟩ := code_quote k k' _ _ heq
        obtain ⟨rfl, hrest⟩ := render_append_inj (stops_renderMembers ms s)
          (stops_renderMembers ns t) (List.cons.inj hmember).2
        obtain ⟨rfl, hst⟩ := renderMembers_append_inj hs ht hrest
        exact ⟨rfl, hst⟩

theorem renderItems_append_inj : ∀ {vs ws : List (Value ν)} {s t : List Char}, Stops Numeric s →
    Stops Numeric t → renderItems number vs ++ s = renderItems number ws ++ t → vs = ws ∧ s = t
  | [], [], _, _, _, _, heq => ⟨rfl, by simpa [renderItems] using heq⟩
  | [], w :: ws, _, _, _, _, heq => by simp [renderItems] at heq
  | v :: vs, [], _, _, _, _, heq => by simp [renderItems] at heq
  | v :: vs, w :: ws, s, t, hs, ht, heq => by
    simp only [renderItems, List.cons_append, List.append_assoc, List.cons.injEq, true_and] at heq
    obtain ⟨rfl, hrest⟩ := render_append_inj (stops_renderItems vs s) (stops_renderItems ws t) heq
    obtain ⟨rfl, hst⟩ := renderItems_append_inj hs ht hrest
    exact ⟨rfl, hst⟩

theorem renderMembers_append_inj : ∀ {ms ns : List (String × Value ν)} {s t : List Char},
    Stops Numeric s → Stops Numeric t → renderMembers number ms ++ s = renderMembers number ns ++ t →
    ms = ns ∧ s = t
  | [], [], _, _, _, _, heq => ⟨rfl, by simpa [renderMembers] using heq⟩
  | [], (k, w) :: ns, _, _, _, _, heq => by simp [renderMembers] at heq
  | (k, v) :: ms, [], _, _, _, _, heq => by simp [renderMembers] at heq
  | (k, v) :: ms, (k', w) :: ns, s, t, hs, ht, heq => by
    simp only [renderMembers, List.cons_append, List.append_assoc, List.cons.injEq,
      true_and] at heq
    obtain ⟨rfl, hmember⟩ := code_quote k k' _ _ heq
    obtain ⟨rfl, hrest⟩ := render_append_inj (stops_renderMembers ms s) (stops_renderMembers ns t)
      (List.cons.inj hmember).2
    obtain ⟨rfl, hst⟩ := renderMembers_append_inj hs ht hrest
    exact ⟨rfl, hst⟩

end

theorem render_injective : Function.Injective (render number) := by
  intro v w heq
  refine (render_append_inj h (SelfDelimiting.stops_nil _) (SelfDelimiting.stops_nil _) ?_).1
  rw [heq]

end Render

/-! ## Normal forms -/

mutual

/-- Convert the numbers and sort the members. -/
def normalize (f : ν → μ) : Value ν → Value μ
  | .null => .null
  | .bool b => .bool b
  | .number n => .number (f n)
  | .string s => .string s
  | .array vs => .array (normalizeItems f vs)
  | .object ms => .object (Members.sortKeys (normalizeMembers f ms))

def normalizeItems (f : ν → μ) : List (Value ν) → List (Value μ)
  | [] => []
  | v :: vs => normalize f v :: normalizeItems f vs

def normalizeMembers (f : ν → μ) : List (String × Value ν) → List (String × Value μ)
  | [] => []
  | (k, v) :: ms => (k, normalize f v) :: normalizeMembers f ms

end

theorem normalizeMembers_eq (f : ν → μ) (ms : List (String × Value ν)) :
    normalizeMembers f ms = ms.map fun m => (m.1, normalize f m.2) := by
  induction ms with
  | nil => rfl
  | cons m ms ih => rw [normalizeMembers, ih, List.map_cons]

/-- Members with distinct keys have one sorted order. -/
theorem Members.sortKeys_eq_of_perm {as bs : Members ν} (h : as.Distinct) (hperm : as.Perm bs) :
    as.sortKeys = bs.sortKeys := by
  have hbs : bs.Distinct := (hperm.map Prod.fst).nodup_iff.1 h
  exact Members.sortKeys_of_perm (Members.ordered_sortKeys hbs)
    (hperm.trans (Members.perm_sortKeys bs).symm)

variable {ξ : Type} {f : ν → ξ} {g : μ → ξ} {eq : ν → μ → Bool}
  (heq : ∀ a b, eq a b = true ↔ f a = g b)
include heq

mutual

/-- Trees are equal if they have the same normal form. -/
theorem equalWith_iff_normalize : ∀ {v : Value ν} {w : Value μ}, v.Keyed → w.Keyed →
    (v.equalWith eq w ↔ normalize f v = normalize g w)
  | .null, w, _, _ => by cases w <;> simp [Value.equalWith, normalize]
  | .bool a, w, _, _ => by cases w <;> simp [Value.equalWith, normalize]
  | .number a, w, _, _ => by cases w <;> simp [Value.equalWith, normalize, heq]
  | .string a, w, _, _ => by cases w <;> simp [Value.equalWith, normalize]
  | .array vs, w, hv, hw => by
    cases w with
    | array =>
      rw [Value.equalWith, normalize, normalize, equalItems_iff_normalize hv hw, Value.array.injEq]
    | _ => simp [Value.equalWith, normalize]
  | .object ms, w, hv, hw => by
    cases w with
    | object ns =>
      rw [Value.equalWith, normalize, normalize, Bool.and_eq_true, decide_eq_true_eq,
        equalMembers_iff_normalize hv.2 hw, Value.object.injEq]
      have hms : Members.Distinct (normalizeMembers f ms) := by
        rw [Members.Distinct, normalizeMembers_eq, List.map_map]
        exact hv.1
      have hlength : ∀ {κ : Type} (h : κ → ξ) (ms : Members κ),
          (normalizeMembers h ms).length = ms.length := fun h ms => by
        rw [normalizeMembers_eq, List.length_map]
      constructor
      · rintro ⟨hlen, hsub⟩
        refine Members.sortKeys_eq_of_perm hms ?_
        have hnodup : (normalizeMembers f ms).Nodup := List.Nodup.of_map Prod.fst hms
        refine (List.subperm_of_subset hnodup hsub).perm_of_length_le ?_
        rw [hlength, hlength, hlen]
      · intro hsort
        have hperm : (normalizeMembers f ms).Perm (normalizeMembers g ns) :=
          (Members.perm_sortKeys _).symm.trans (hsort ▸ Members.perm_sortKeys _)
        refine ⟨?_, fun m hm => hperm.subset hm⟩
        rw [← hlength f ms, ← hlength g ns, hperm.length_eq]
    | _ => simp [Value.equalWith, normalize]

theorem equalItems_iff_normalize : ∀ {vs : List (Value ν)} {ws : List (Value μ)}, KeyedItems vs →
    KeyedItems ws → (equalItems eq vs ws ↔ normalizeItems f vs = normalizeItems g ws)
  | [], [], _, _ => by simp [equalItems, normalizeItems]
  | [], w :: ws, _, _ => by simp [equalItems, normalizeItems]
  | v :: vs, [], _, _ => by simp [equalItems, normalizeItems]
  | v :: vs, w :: ws, hv, hw => by
    rw [equalItems, Bool.and_eq_true, equalWith_iff_normalize hv.1 hw.1,
      equalItems_iff_normalize hv.2 hw.2, normalizeItems, normalizeItems, List.cons.injEq]

theorem equalMembers_iff_normalize : ∀ {ms : List (String × Value ν)}
    {ns : List (String × Value μ)}, KeyedMembers ms → Members.Distinct ns ∧ KeyedMembers ns →
    (equalMembers eq ms ns ↔ normalizeMembers f ms ⊆ normalizeMembers g ns)
  | [], ns, _, _ => by simp [equalMembers, normalizeMembers]
  | (k, v) :: ms, ns, hms, hns => by
    have hfirst : (match ns.lookup k with
        | some w => v.equalWith eq w
        | none => false) = true ↔ (k, normalize f v) ∈ normalizeMembers g ns := by
      rw [normalizeMembers_eq, List.mem_map]
      constructor
      · intro h
        cases hlookup : ns.lookup k with
        | none =>
          rw [hlookup] at h
          cases h
        | some w =>
          rw [hlookup] at h
          have hmem := (Members.lookup_eq_some_iff hns.1).1 hlookup
          have hw := keyedMembers_iff.1 hns.2 _ hmem
          exact ⟨(k, w), hmem, by rw [← (equalWith_iff_normalize hms.1 hw).1 h]⟩
      · rintro ⟨⟨k', w⟩, hmem, hpair⟩
        obtain ⟨rfl, hvw⟩ := Prod.mk.inj hpair
        have hw := keyedMembers_iff.1 hns.2 _ hmem
        rw [(Members.lookup_eq_some_iff hns.1).2 hmem]
        exact (equalWith_iff_normalize hms.1 hw).2 hvw.symm
    rw [equalMembers, Bool.and_eq_true, equalMembers_iff_normalize hms.2 hns, normalizeMembers,
      List.cons_subset]
    exact and_congr hfirst .rfl

end

end Json
